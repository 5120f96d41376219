import Hand2.Clone.Repository
import Hand2.Fetch.Batched
import Hand2.Fetch.Pages
import Hand2.Pushes.Refinement

/-!
# `Clone.Bulk` — `bulk_clone`, and the hashes it hands to `clone_repository`

The hash of a repository is the end of a chain of requests for its default branch, its HEAD and its events. The template
goes through `cache_repository`, which looks at the hash first; the repositories do not. The model keeps the calls of
`clone_repository` in a log that outlives a failed assertion.
-/

namespace Hand2

open CJson

/-- The arguments of `bulk_clone`, what GitHub answers, and what happens on the disk. -/
structure BulkRun where
  cacheDir : CString
  parentDir : CString
  title : CString
  cutoff : Int
  /-- `template_repo` and `template_branch`, if both are given. -/
  template : Option (CString × CString)
  githubToken : CString
  organization : CString
  /-- The request for the user: whether it is delivered, and its response. -/
  userCompleted : Bool
  user : Option CJson
  templateCommit : Fetch.Responses
  pages : ListingPages
  /-- The responses for the default branches. -/
  defaultBranches : Fetch.Responses
  /-- The responses to `retrieve_pushes_before_cutoff`. -/
  api : Api
  fuel : Nat
  /-- How the clone of the template goes, and what it finds on the disk. -/
  templateClone : CloneRun × (CString → Option Found)
  /-- How the clone of repository `k` goes, and what it finds. -/
  clones : Nat → CloneRun × (CString → Option Found)

/-- `retrieve_username`: a response without a login leaves the empty string. -/
def retrieveUsername (maxSize : Nat) (completed : Bool) (json : Option CJson) (githubToken : CString) :
    Except Fault (Option CString) := do
  let _url ← assignGithubGet githubToken (CString.lit "https://api.github.com/user")
  let username := getObjectItemCaseSensitive json (CString.lit "login")
  let out :=
    if isString username then CString.ofBytes ((valuestring username).bytes.take (maxSize - 1)) else CString.empty
  return if completed then some out else none

/-- `clone_repository`, logged. -/
def cloneLogged (clone : CloneRun × (CString → Option Found)) (temporary dir : CString) (r : Request)
    (calls : List Request) : Except (Fault × List Request) (Bool × List Request) :=
  match cloneRepository clone.1 temporary dir r clone.2 with
  | .ok (success, _) => .ok (success, calls ++ [r])
  | .error e         => .error (e, calls ++ [r])

/-- `"%s/test"` and `"%s/docker"`. -/
def formatParts (dir : CString) : Except Fault (CString × CString) := do
  let testDir ← formatString maxPathLen (dir ++ CString.lit "/test")
  let dockerDir ← formatString maxPathLen (dir ++ CString.lit "/docker")
  return (testDir, dockerDir)

namespace BulkRun

variable (run : BulkRun)

/-- `cache_repository`, for the template. -/
def cacheRepository (r : Request) : Except (Fault × List Request) (Option CString × List Request) :=
  if hashIsValid r.hash then do
    let dir ← failingIn [] (formatString maxPathLen (checkoutDir run.cacheDir r.repo r.hash))
    if directoryExists ((run.templateClone.2 dir).map .found) then .ok (some dir, [])
    else do
      let (success, calls) ← cloneLogged run.templateClone (temporaryDir run.cacheDir) dir r []
      .ok (if success then some dir else none, calls)
  else .ok (none, [])

/-- The template: whether `bulk_clone` goes on. -/
def retrieveTemplate (username : CString) : Except (Fault × List Request) (Bool × List Request) :=
  match run.template with
  | none => .ok (true, [])
  | some (repo, branch) => do
      let outHash ← failingIn []
        (Fetch.retrieveLatestCommits run.templateCommit [repo] [branch] run.githubToken run.organization)
      let (dir, calls) ← run.cacheRepository ⟨username, run.githubToken, run.organization, repo, outHash 0⟩
      match dir with
      | none     => .ok (false, calls)
      | some dir => do
          let _parts ← failingIn calls (formatParts dir)
          .ok (true, calls)

/-- What the loop works with. -/
structure Gathered where
  username : CString
  repos : List CString
  branches : List CString
  out : Nat → GitCommitHash × Int

/-- `bulk_clone`, up to the loop; nothing if it returns before. -/
def gather : Except (Fault × List Request) (Option Gathered × List Request) := do
  let username ← failingIn [] (retrieveUsername maxUrlLen run.userCompleted run.user run.githubToken)
  match username with
  | none => .ok (none, [])
  | some username => do
      let (goOn, calls) ← run.retrieveTemplate username
      if goOn then do
        let repos ← failingIn calls
          (retrieveReposByPrefix run.fuel run.pages run.githubToken run.organization run.title)
        let branches ← failingIn calls
          (Fetch.retrieveDefaultBranches run.defaultBranches repos run.githubToken run.organization)
        if branches.length ≠ repos.length then .error (.assertion, calls)
        else do
          let out ← failingIn calls
            (retrievePushesBeforeCutoff run.fuel run.api repos branches run.githubToken run.organization run.cutoff)
          .ok (some ⟨username, repos, branches, out⟩, calls)
      else .ok (none, calls)

/-- `"%s/%s"`. -/
def repoDir (g : Gathered) (k : Nat) : CString := run.parentDir ++ CString.lit "/" ++ elem g.repos k

/-- What `clone_repository` is called with for repository `k`. -/
def request (g : Gathered) (k : Nat) : Request :=
  ⟨g.username, run.githubToken, run.organization, elem g.repos k, (g.out k).1⟩

/-- The body of the loop. What becomes of the template's directories is not looked at. -/
def cloneRound (g : Gathered) (calls : List Request) (k : Nat) : Except (Fault × List Request) (List Request) := do
  let dir ← failingIn calls (formatString maxPathLen (run.repoDir g k))
  let (success, calls) ← cloneLogged (run.clones k) (temporaryDir run.cacheDir) dir (run.request g k) calls
  if success && run.template.isSome then do
    let _parts ← failingIn calls (formatParts dir)
    .ok calls
  else .ok calls

/-- `bulk_clone`: the calls of `clone_repository`. -/
def bulkClone : Except (Fault × List Request) (List Request) := do
  let (gathered, calls) ← run.gather
  match gathered with
  | none   => .ok calls
  | some g => (List.range g.repos.length).foldlM (run.cloneRound g) calls

/-! ## The rounds of the loop -/

/-- Round `k` gets past its buffers: those of the directory and of the url and, where the template is copied, those of
    its parts. -/
structure RoundFits (g : Gathered) (k : Nat) : Prop where
  dir : (run.repoDir g k).length < maxPathLen
  url : (cloneUrl (run.request g k)).length < maxUrlLen
  parts : run.template.isSome = true →
    (∃ disk, cloneRepository (run.clones k).1 (temporaryDir run.cacheDir) (run.repoDir g k) (run.request g k)
      (run.clones k).2 = .ok (true, disk)) →
    (run.repoDir g k ++ CString.lit "/test").length < maxPathLen ∧
      (run.repoDir g k ++ CString.lit "/docker").length < maxPathLen

/-- And past the assertion. -/
def RoundPasses (g : Gathered) (k : Nat) : Prop := run.RoundFits g k ∧ hashIsValid (run.request g k).hash = true

/-- The log in front of round `k`, if every round before it has passed. -/
def logAt (g : Gathered) (calls : List Request) (k : Nat) : List Request :=
  calls ++ (List.range k).map (run.request g)

variable {run} {g : Gathered} {calls : List Request} {k : Nat}

theorem logAt_succ : run.logAt g calls (k + 1) = run.logAt g calls k ++ [run.request g k] := by
  simp [logAt, List.range_succ]

theorem mem_logAt {r : Request} : r ∈ run.logAt g calls k ↔ r ∈ calls ∨ ∃ j < k, run.request g j = r := by
  simp [logAt]

theorem formatParts_ok {dir : CString} (htest : (dir ++ CString.lit "/test").length < maxPathLen)
    (hdocker : (dir ++ CString.lit "/docker").length < maxPathLen) :
    formatParts dir = .ok (dir ++ CString.lit "/test", dir ++ CString.lit "/docker") := by
  unfold formatParts
  rw [formatString_ok htest, formatString_ok hdocker]
  rfl

theorem formatParts_exit {dir : CString} (h : ¬ ((dir ++ CString.lit "/test").length < maxPathLen ∧
    (dir ++ CString.lit "/docker").length < maxPathLen)) : formatParts dir = .error .exit := by
  unfold formatParts
  by_cases htest : (dir ++ CString.lit "/test").length < maxPathLen
  · rw [formatString_ok htest, formatString_exit (Nat.le_of_not_lt fun hdocker => h ⟨htest, hdocker⟩)]
    rfl
  · rw [formatString_exit (Nat.le_of_not_lt htest)]
    rfl

variable (clone : CloneRun × (CString → Option Found)) (temporary dir : CString)

/-- A call that gets past its assertion and its url returns. -/
theorem cloneLogged_ok {r : Request} (hvalid : hashIsValid r.hash = true) (hurl : (cloneUrl r).length < maxUrlLen)
    (calls : List Request) :
    ∃ success disk, cloneRepository clone.1 temporary dir r clone.2 = .ok (success, disk) ∧
      cloneLogged clone temporary dir r calls = .ok (success, calls ++ [r]) := by
  obtain ⟨⟨success, disk⟩, hclone⟩ : ∃ out, cloneRepository clone.1 temporary dir r clone.2 = .ok out :=
    ⟨_, cloneRepository_eq (beginClone_ok hvalid hurl)⟩
  refine ⟨success, disk, hclone, ?_⟩
  unfold cloneLogged
  rw [hclone]

/-- One that does not is logged all the same. -/
theorem cloneLogged_error {r : Request} (h : ¬ (hashIsValid r.hash = true ∧ (cloneUrl r).length < maxUrlLen))
    (calls : List Request) :
    ∃ e, cloneLogged clone temporary dir r calls = .error (e, calls ++ [r]) := by
  obtain ⟨e, hbegin⟩ := beginClone_error h
  refine ⟨e, ?_⟩
  unfold cloneLogged cloneRepository
  rw [hbegin]
  rfl

theorem request_mem_logAt (k : Nat) : run.request g k ∈ run.logAt g calls (k + 1) :=
  mem_logAt.mpr (.inr ⟨k, Nat.lt_succ_self k, rfl⟩)

/-- A round that passes logs its call. -/
theorem cloneRound_ok (h : run.RoundPasses g k) :
    run.cloneRound g (run.logAt g calls k) k = .ok (run.logAt g calls (k + 1)) := by
  obtain ⟨hfits, hvalid⟩ := h
  obtain ⟨success, disk, hclone, hlogged⟩ := cloneLogged_ok (run.clones k)
    (temporaryDir run.cacheDir) (run.repoDir g k) hvalid hfits.url (run.logAt g calls k)
  unfold cloneRound
  rw [formatString_ok hfits.dir, logAt_succ]
  show (cloneLogged _ _ _ _ _ >>= _) = _
  rw [hlogged]
  show (if _ then _ else _) = _
  split
  · next hcopy =>
      obtain ⟨rfl, htemplate⟩ : success = true ∧ run.template.isSome = true := by simpa using hcopy
      obtain ⟨htest, hdocker⟩ := hfits.parts htemplate ⟨disk, hclone⟩
      rw [formatParts_ok htest hdocker]
      rfl
  · rfl

/-- One that does not ends the program: before the call if the directory is too long, else behind it. -/
theorem cloneRound_error (h : ¬ run.RoundPasses g k) :
    ∃ e, run.cloneRound g (run.logAt g calls k) k = .error e ∧
      e.2 = if (run.repoDir g k).length < maxPathLen then run.logAt g calls (k + 1) else run.logAt g calls k := by
  unfold cloneRound
  by_cases hdir : (run.repoDir g k).length < maxPathLen
  case neg =>
    rw [formatString_exit (Nat.le_of_not_lt hdir), if_neg hdir]
    exact ⟨_, rfl, rfl⟩
  rw [formatString_ok hdir, if_pos hdir, logAt_succ]
  by_cases hcall : hashIsValid (run.request g k).hash = true ∧ (cloneUrl (run.request g k)).length < maxUrlLen
  case neg =>
    obtain ⟨e, herror⟩ := cloneLogged_error (run.clones k) (temporaryDir run.cacheDir)
      (run.repoDir g k) hcall (run.logAt g calls k)
    refine ⟨(e, run.logAt g calls k ++ [run.request g k]), ?_, rfl⟩
    show (cloneLogged _ _ _ _ _ >>= _) = _
    rw [herror]
    rfl
  obtain ⟨success, disk, hclone, hlogged⟩ := cloneLogged_ok (run.clones k)
    (temporaryDir run.cacheDir) (run.repoDir g k) hcall.1 hcall.2 (run.logAt g calls k)
  refine ⟨(.exit, run.logAt g calls k ++ [run.request g k]), ?_, rfl⟩
  show (cloneLogged _ _ _ _ _ >>= _) = _
  rw [hlogged]
  -- what is left to fail is the copy of the template
  have hcopy : success = true ∧ run.template.isSome = true ∧
      ¬ ((run.repoDir g k ++ CString.lit "/test").length < maxPathLen ∧
      (run.repoDir g k ++ CString.lit "/docker").length < maxPathLen) := by
    by_contra hno
    refine h ⟨⟨hdir, hcall.2, fun htemplate ⟨disk', hsuccess⟩ => ?_⟩, hcall.1⟩
    rw [hclone] at hsuccess
    obtain ⟨rfl, -⟩ := Prod.mk.inj (Except.ok.inj hsuccess)
    by_contra hparts
    exact hno ⟨rfl, htemplate, hparts⟩
  obtain ⟨rfl, htemplate, hparts⟩ := hcopy
  show (if _ then _ else _) = _
  rw [if_pos (by simpa using htemplate), formatParts_exit hparts]
  rfl

/-- **Where the loop stops**: all rounds pass, or the first that does not ends it, with what it has logged. -/
theorem cloneRounds (run : BulkRun) (g : Gathered) (calls : List Request) (n : Nat) :
    ((∀ k < n, run.RoundPasses g k) ∧
      Loops.final ((List.range n).foldlM (run.cloneRound g) calls) = run.logAt g calls n) ∨
    ∃ k < n, (∀ j < k, run.RoundPasses g j) ∧ ¬ run.RoundPasses g k ∧
      Loops.final ((List.range n).foldlM (run.cloneRound g) calls)
        = if (run.repoDir g k).length < maxPathLen then run.logAt g calls (k + 1) else run.logAt g calls k := by
  have hstart : run.logAt g calls 0 = calls := by simp [logAt]
  have hstops := Loops.foldlM_range_stops (f := run.cloneRound g) (run.logAt g calls) (run.RoundPasses g)
    (fun k e => e.2 = if (run.repoDir g k).length < maxPathLen then run.logAt g calls (k + 1) else run.logAt g calls k)
    (n := n) (fun k _ h => cloneRound_ok h) (fun k _ h => cloneRound_error h)
  rw [hstart] at hstops
  rcases hstops with ⟨hall, hrun⟩ | ⟨k, hk, hbefore, hfails, e, hrun, he⟩
  · rw [hrun]
    exact .inl ⟨hall, rfl⟩
  · rw [hrun]
    exact .inr ⟨k, hk, hbefore, hfails, he⟩

/-! ## What the loop works with -/

variable (run) in
/-- The fetchers give `g`, and nothing ends `bulk_clone` before its loop. -/
structure Gathers (g : Gathered) : Prop where
  username : retrieveUsername maxUrlLen run.userCompleted run.user run.githubToken = .ok (some g.username)
  template : ∃ calls, run.retrieveTemplate g.username = .ok (true, calls)
  repos : retrieveReposByPrefix run.fuel run.pages run.githubToken run.organization run.title = .ok g.repos
  branches : Fetch.retrieveDefaultBranches run.defaultBranches g.repos run.githubToken run.organization
    = .ok g.branches
  out : retrievePushesBeforeCutoff run.fuel run.api g.repos g.branches run.githubToken run.organization run.cutoff
    = .ok g.out

theorem length_of_branches {repos branches : List CString}
    (h : Fetch.retrieveDefaultBranches run.defaultBranches repos run.githubToken run.organization = .ok branches) :
    branches.length = repos.length := by
  obtain ⟨result, -, h⟩ := Loops.bind_eq_ok h
  split at h
  · cases h
  · next hlen =>
      injection h with h
      subst h
      simpa using hlen

theorem gather_of_gathers (h : run.Gathers g) : ∃ calls, run.gather = .ok (some g, calls) := by
  obtain ⟨calls, htemplate⟩ := h.template
  refine ⟨calls, ?_⟩
  simp [gather, failingIn, h.username, htemplate, h.repos, h.branches, length_of_branches h.branches, h.out, Bind.bind,
    Except.bind]

theorem gathers_of_gather (h : run.gather = .ok (some g, calls)) : run.Gathers g := by
  unfold gather at h
  obtain ⟨user, huser, h⟩ := Loops.bind_eq_ok h
  cases user with
  | none => cases h
  | some username =>
      obtain ⟨⟨goOn, calls'⟩, htemplate, h⟩ := Loops.bind_eq_ok h
      dsimp only at h
      cases goOn with
      | false => cases h
      | true =>
          obtain ⟨repos, hrepos, h⟩ := Loops.bind_eq_ok h
          obtain ⟨branches, hbranches, h⟩ := Loops.bind_eq_ok h
          split at h
          · cases h
          · obtain ⟨out, hout, h⟩ := Loops.bind_eq_ok h
            injection h with h
            injection h with h hcalls
            injection h with h
            subst h
            exact ⟨eq_of_failingIn huser, ⟨calls', htemplate⟩, eq_of_failingIn hrepos, eq_of_failingIn hbranches,
              eq_of_failingIn hout⟩

theorem not_gathers (h : ∀ g calls, run.gather ≠ .ok (some g, calls)) (g : Gathered) : ¬ run.Gathers g := by
  intro hg
  obtain ⟨calls, hgather⟩ := gather_of_gathers hg
  exact h g calls hgather

/-! ## The log in front of the loop -/

/-- Every call in the log has a valid hash. -/
def LogValid (calls : List Request) : Prop := ∀ r ∈ calls, hashIsValid r.hash = true

theorem logValid_nil : LogValid [] := fun _ hr => absurd hr List.not_mem_nil

theorem logAt_valid (hcalls : LogValid calls) (h : ∀ j < k, hashIsValid (run.request g j).hash = true) :
    LogValid (run.logAt g calls k) := by
  intro r hr
  rcases mem_logAt.mp hr with hr | ⟨j, hj, rfl⟩
  · exact hcalls r hr
  · exact h j hj

/-- A step that logs nothing. -/
theorem logged_failingIn {α β : Type} (hcalls : LogValid calls) {x : Except Fault α}
    {f : α → Except (Fault × List Request) (β × List Request)} (hf : ∀ a, LogValid (Loops.logged (f a))) :
    LogValid (Loops.logged (failingIn calls x >>= f)) := by
  cases x with
  | ok a    => exact hf a
  | error e => exact hcalls

/-- `cache_repository` looks at the hash. -/
theorem cacheRepository_log (r : Request) : LogValid (Loops.logged (run.cacheRepository r)) := by
  unfold cacheRepository
  split
  · next hvalid =>
      refine logged_failingIn logValid_nil fun dir => ?_
      split
      · exact logValid_nil
      · have hcall : LogValid [r] := fun r' hr' => by rwa [List.mem_singleton.mp hr']
        refine Loops.logged_bind LogValid ?_ (fun success calls hcalls => hcalls)
        unfold cloneLogged
        split <;> exact hcall
  · exact logValid_nil

theorem retrieveTemplate_log (username : CString) : LogValid (Loops.logged (run.retrieveTemplate username)) := by
  unfold retrieveTemplate
  split
  · exact logValid_nil
  · refine logged_failingIn logValid_nil fun outHash => ?_
    refine Loops.logged_bind LogValid (cacheRepository_log _) fun dir calls hcalls => ?_
    cases dir with
    | none     => exact hcalls
    | some dir => exact logged_failingIn hcalls fun _ => hcalls

/-- In front of the loop only the template is cloned. -/
theorem gather_log (run : BulkRun) : LogValid (Loops.logged run.gather) := by
  unfold gather
  refine logged_failingIn logValid_nil fun user => ?_
  cases user with
  | none => exact logValid_nil
  | some username =>
      refine Loops.logged_bind LogValid (retrieveTemplate_log username) fun goOn calls hcalls => ?_
      dsimp only
      cases goOn with
      | false => exact hcalls
      | true =>
          refine logged_failingIn hcalls fun repos => ?_
          refine logged_failingIn hcalls fun branches => ?_
          split
          · exact hcalls
          · exact logged_failingIn hcalls fun out => hcalls

/-! ## The hash of a repository -/

/-- What `retrieve_pushes_before_cutoff` gives for repository `k` whose first `n` pages of events settle it: the push
    that stands, else HEAD. -/
def collectedHash (run : BulkRun) (g : Gathered) (k n : Nat) : GitCommitHash :=
  (standing run.cutoff (marks (elem g.branches k) (Paged.concat (eventPages run.api g.repos k) 1 n))).getD
    (headCommit run.api g.repos g.branches k)

theorem request_hash (h : run.Gathers g) (hk : k < g.repos.length) {n : Nat}
    (hsettles : Settles (elem g.branches k) run.cutoff (eventPages run.api g.repos k) 1 n) :
    (run.request g k).hash = run.collectedHash g k n := by
  show (g.out k).1 = _
  rw [answer_of_retrieve h.out hk hsettles]
  exact scanTimes_fst _ _ _ _

/-- Repository `k` gets its turn: the rounds before it fit, and its directory does. -/
def TurnComes (run : BulkRun) (g : Gathered) (k : Nat) : Prop :=
  (∀ j < k, run.RoundFits g j) ∧ (run.repoDir g k).length < maxPathLen

/-- The loop hands over valid hashes if and only if the repositories that get their turn have them. -/
theorem rounds_valid_iff (g : Gathered) (hcalls : LogValid calls) :
    LogValid (Loops.final ((List.range g.repos.length).foldlM (run.cloneRound g) calls)) ↔
      ∀ k < g.repos.length, run.TurnComes g k → hashIsValid (run.request g k).hash = true := by
  rcases cloneRounds run g calls g.repos.length with ⟨hall, hlog⟩ | ⟨stop, hstop, hbefore, hfails, hlog⟩
  · rw [hlog]
    exact ⟨fun _ k hk _ => (hall k hk).2, fun _ => logAt_valid hcalls fun j hj => (hall j hj).2⟩
  · rw [hlog]
    constructor
    · intro hvalid k hk hturn
      rcases Nat.lt_trichotomy k stop with hlt | rfl | hgt
      · exact (hbefore k hlt).2
      · rw [if_pos hturn.2] at hvalid
        exact hvalid _ (request_mem_logAt k)
      · -- the loop has stopped in front of it, at a round that fits: so at an invalid hash
        have hfits := hturn.1 stop hgt
        rw [if_pos hfits.dir] at hvalid
        exact absurd ⟨hfits, hvalid _ (request_mem_logAt stop)⟩ hfails
    · intro hturns
      split
      · next hdir =>
          refine logAt_valid hcalls fun j hj => ?_
          rcases Nat.lt_succ_iff_lt_or_eq.mp hj with hj | rfl
          · exact (hbefore j hj).2
          · exact hturns j hstop ⟨fun i hi => (hbefore i hi).1, hdir⟩
      · exact logAt_valid hcalls fun j hj => (hbefore j hj).2

end BulkRun

/-- **When bulk cloning never meets the assertion**, for any lists, responses and failures: every hash that
    `clone_repository` is called with is valid if and only if every repository that gets its turn has a push that
    stands and has a valid hash, or a HEAD that is one. -/
theorem bulk_hashes_valid_iff (run : BulkRun) :
    (∀ r ∈ Loops.final run.bulkClone, hashIsValid r.hash = true) ↔
      ∀ g, run.Gathers g → ∀ k < g.repos.length, run.TurnComes g k →
        ∀ n, Settles (elem g.branches k) run.cutoff (eventPages run.api g.repos k) 1 n →
          hashIsValid (run.collectedHash g k n) = true := by
  show BulkRun.LogValid (Loops.final (run.gather >>= _)) ↔ _
  have hlog := BulkRun.gather_log run
  rcases hgather : run.gather with ⟨e, calls⟩ | ⟨_ | g, calls⟩
  · rw [hgather] at hlog
    exact ⟨fun _ g hg => absurd hg (BulkRun.not_gathers (by simp [hgather]) g), fun _ => hlog⟩
  · rw [hgather] at hlog
    exact ⟨fun _ g hg => absurd hg (BulkRun.not_gathers (by simp [hgather]) g), fun _ => hlog⟩
  · rw [hgather] at hlog
    have hg := BulkRun.gathers_of_gather hgather
    refine (BulkRun.rounds_valid_iff g hlog).trans ⟨?_, ?_⟩
    · intro hvalid g' hg' k hk hturn n hsettles
      obtain ⟨calls', hgather'⟩ := BulkRun.gather_of_gathers hg'
      rw [hgather] at hgather'
      obtain rfl : g = g' := Option.some.inj (Prod.mk.inj (Except.ok.inj hgather')).1
      rw [← BulkRun.request_hash hg hk hsettles]
      exact hvalid k hk hturn
    · intro h k hk hturn
      -- the fetcher has returned, so the repository was settled
      obtain ⟨n, hsettles⟩ := settles_of_retrieve hg.out hk
      rw [BulkRun.request_hash hg hk hsettles]
      exact h g hg k hk hturn n hsettles

/-- Two repositories: Amy has never pushed, so there is no such branch; Bob's HEAD is known. -/
def neverPushed : BulkRun where
  cacheDir := CString.lit "cache"
  parentDir := CString.lit "hw1"
  title := CString.lit "hw1"
  cutoff := 1711036799
  template := none
  githubToken := CString.lit "ghp_x"
  organization := CString.lit "course"
  userCompleted := true
  user := some (.object [(CString.lit "login", .string (CString.lit "ta"))])
  templateCommit _ _ := none
  pages page := some (.array (if page = 1 then
    [.object [(CString.lit "name", .string (CString.lit "hw1-amy"))],
      .object [(CString.lit "name", .string (CString.lit "hw1-bob"))]] else []))
  defaultBranches _ _ := some (.object [(CString.lit "default_branch", .string (CString.lit "main"))])
  api := {
    repository := fun _ => none
    branch := fun repo _ =>
      if repo = CString.lit "hw1-bob" then
        some (.object [(CString.lit "commit", .object [(CString.lit "sha",
          .string (CString.lit "2222222222222222222222222222222222222222"))])])
      else some (.object [(CString.lit "message", .string (CString.lit "Branch not found"))])
    events := fun _ _ => some (.array []) }
  fuel := 2
  templateClone := (networkDown, fun _ => none)
  clones _ := (networkDown, fun _ => none)

/-- **The assertion ends the cloning**: the first call is Amy's, with the zero hash, and Bob's is never made. -/
theorem never_pushed_aborts : ∃ r, neverPushed.bulkClone = .error (.assertion, [r]) ∧
    r.repo = CString.lit "hw1-amy" ∧ hashIsValid r.hash = false := by
  refine ⟨⟨CString.lit "ta", CString.lit "ghp_x", CString.lit "course", CString.lit "hw1-amy", GitCommitHash.zero⟩, ?_,
    rfl, rfl⟩
  decide +kernel

end Hand2
