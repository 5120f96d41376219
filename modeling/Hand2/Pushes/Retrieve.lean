import Hand2.Fetch.Batched

/-!
# `Pushes.Retrieve` — `retrieve_pushes_before_cutoff`

The function asks GitHub for three things: the repository (its creation time), the required branch (its
HEAD commit), and the events of the repository, page by page until a page decides the repository or is
empty. It does so for up to 64 repositories at a time. What GitHub answers is the parameter `Api`: the
parsed body of a response, the null pointer when there is none. The texts of every request, and
`refs/heads/<branch>`, have to fit their buffers; one that does not ends the program.

The arrays `out_hash`, `out_push_time`, `latest_push_times` and `latest_push_hashes`, always indexed by
`at + i`, are one array of `PushSlot`.
-/

namespace Hand2

open CJson

/-- The responses of GitHub, by the repository (and branch, and page number) in the url. -/
structure Api where
  repository : CString → Option CJson
  branch : CString → CString → Option CJson
  events : CString → Nat → Option CJson

/-! ## Events -/

def eventType (event : CJson) : Option CJson := getObjectItemCaseSensitive (some event) (CString.lit "type")
def createdAt (event : CJson) : Option CJson :=
  getObjectItemCaseSensitive (some event) (CString.lit "created_at")
def payload (event : CJson) : Option CJson := getObjectItemCaseSensitive (some event) (CString.lit "payload")
def pushHash (event : CJson) : Option CJson :=
  getObjectItemCaseSensitive (payload event) (CString.lit "head")
def refType (event : CJson) : Option CJson :=
  getObjectItemCaseSensitive (payload event) (CString.lit "ref_type")
def ref (event : CJson) : Option CJson := getObjectItemCaseSensitive (payload event) (CString.lit "ref")
def defaultBranch (event : CJson) : Option CJson :=
  getObjectItemCaseSensitive (payload event) (CString.lit "master_branch")

/-- The condition of the first branch: a push to `reqRef`. -/
def isPushTo (reqRef : CString) (event : CJson) : Bool :=
  isStringEq (eventType event) (CString.lit "PushEvent") &&
  isString (createdAt event) && isString (pushHash event) && isStringEq (ref event) reqRef

/-- The condition of the second branch: the creation of the required branch (whose `ref` is the bare branch
    name). -/
def isBranchCreation (reqBranch : CString) (event : CJson) : Bool :=
  isStringEq (eventType event) (CString.lit "CreateEvent") &&
  isString (createdAt event) && isStringEq (refType event) (CString.lit "branch") &&
  isStringEq (ref event) reqBranch

/-- The condition of the third branch: the creation of the repository, with the required branch as its
    default. -/
def isRepositoryCreation (reqBranch : CString) (event : CJson) : Bool :=
  isStringEq (eventType event) (CString.lit "CreateEvent") &&
  isString (createdAt event) && isStringEq (refType event) (CString.lit "repository") &&
  isStringEq (defaultBranch event) reqBranch

/-- `parse_time(created_at->valuestring, TIME_ZONE_UTC0)`. -/
def eventTime (event : CJson) : Int := parseTime (valuestring (createdAt event)) timeZoneUtc0

/-- `init_git_commit_hash(push_hash->valuestring)`. -/
def eventHash (event : CJson) : GitCommitHash := initGitCommitHash (valuestring (pushHash event))

/-! ## One page of one repository -/

/-- The entries of a repository in the four arrays. -/
structure PushSlot where
  outHash : GitCommitHash
  outPushTime : Int
  latestPushTime : Int
  latestPushHash : GitCommitHash

/-- `clear_memory`. -/
def PushSlot.cleared : PushSlot := ⟨GitCommitHash.zero, 0, 0, GitCommitHash.zero⟩

/-- The `cJSON_ArrayForEach` loop; `true` when it breaks with the worker done. -/
def eventLoop (reqRef reqBranch : CString) (lastResortHash : GitCommitHash) (cutoff : Int) :
    List CJson → PushSlot → PushSlot × Bool
  | [],            slot => (slot, false)
  | event :: rest, slot =>
      if isPushTo reqRef event then
        let pushTime := eventTime event
        let hash := eventHash event
        let slot := if pushTime > slot.latestPushTime then
            { slot with latestPushTime := pushTime, latestPushHash := hash } else slot
        if pushTime < cutoff then ({ slot with outPushTime := pushTime, outHash := hash }, true)
        else eventLoop reqRef reqBranch lastResortHash cutoff rest slot
      else if isBranchCreation reqBranch event then
        let pushTime := eventTime event
        if pushTime < cutoff then
          ({ slot with outPushTime := pushTime, outHash := lastResortHash }, true)
        else eventLoop reqRef reqBranch lastResortHash cutoff rest slot
      else if isRepositoryCreation reqBranch event then
        let pushTime := eventTime event
        if pushTime < cutoff then
          ({ slot with outPushTime := pushTime, outHash := lastResortHash }, true)
        else eventLoop reqRef reqBranch lastResortHash cutoff rest slot
      else eventLoop reqRef reqBranch lastResortHash cutoff rest slot

/-- The first block after a page: HEAD was not reported by any push event, and the newest push is early
    enough, so HEAD is taken at the time of that push. -/
def fixUnreportedHead (lastResortHash : GitCommitHash) (cutoff : Int) (slot : PushSlot) : PushSlot :=
  if slot.latestPushTime ≠ 0 ∧ ¬ compareHash slot.latestPushHash lastResortHash ∧
     slot.latestPushTime < cutoff then
    { slot with outHash := lastResortHash, outPushTime := slot.latestPushTime }
  else slot

/-- The second block after a page: nothing is known yet, so HEAD is taken at the creation time. -/
def fixNoPush (lastResortHash : GitCommitHash) (lastResortPushTime : Int) (slot : PushSlot) : PushSlot :=
  if slot.outPushTime = 0 then
    { slot with outHash := lastResortHash, outPushTime := lastResortPushTime }
  else slot

/-- The `sizeof(req_ref)`. -/
def reqRefSize : Nat := 256

/-- `"https://api.github.com/repos/%s/%s/events?page=%d&per_page=100"`. -/
def eventsUrl (organization repo : CString) (page : Nat) : CString :=
  Fetch.repoUrl organization repo ++ CString.lit "/events?page=" ++ CString.ofBytes (decimal page)
    ++ CString.lit "&per_page=100"

/-- What a worker that is not done asks for, and does with its page. -/
def pushesStep (api : Api) (repos reqBranches : List CString) (githubToken organization : CString) (cutoff : Int)
    (lastResortPushTimes : Nat → Int) (lastResortHashes : Nat → GitCommitHash)
    (start i page : Nat) (slot : PushSlot) : Except Fault (PushSlot × Bool) := do
  let _ ← assignGithubGet githubToken (eventsUrl organization (elem repos (start + i)) page)
  let reqRef ← formatString reqRefSize (CString.lit "refs/heads/" ++ elem reqBranches (start + i))
  let events := arrayForEach (api.events (elem repos (start + i)) page)
  let out := eventLoop reqRef (elem reqBranches (start + i)) (lastResortHashes (start + i)) cutoff
    events slot
  let slot := fixUnreportedHead (lastResortHashes (start + i)) cutoff out.1
  let slot := fixNoPush (lastResortHashes (start + i)) (lastResortPushTimes (start + i)) slot
  .ok (slot, out.2 || events.isEmpty)

/-- `retrieve_pushes_before_cutoff`, for at most `fuel` pages a batch: the arrays `out_hash` and
    `out_push_time`. -/
def retrievePushesBeforeCutoff (fuel : Nat) (api : Api) (repos reqBranches : List CString)
    (githubToken organization : CString) (cutoff : Int) : Except Fault (Nat → GitCommitHash × Int) := do
  let lastResortPushTimes ← Fetch.retrieveCreationTimes (fun k _ => api.repository (elem repos k)) repos
    githubToken organization
  let lastResortHashes ← Fetch.retrieveLatestCommits (fun k _ => api.branch (elem repos k) (elem reqBranches k))
    repos reqBranches githubToken organization
  let slots ← Lockstep.run .outOfFuel
    (pushesStep api repos reqBranches githubToken organization cutoff lastResortPushTimes lastResortHashes)
    maxWorker repos.length 1 fuel (fun _ => PushSlot.cleared)
  .ok (fun k => ((slots k).outHash, (slots k).outPushTime))

end Hand2
