import Hand2.Fetch.Get
import Hand2.Hash
import Hand2.Json
import Hand2.Library.Lockstep
import Hand2.Time

/-!
# `Fetch.Batched` — one request for every repository

`retrieve_default_branches`, `retrieve_latest_commits` and `retrieve_creation_times` share a loop over batches of 64:
the url of worker `i` is made from `repos->elem[at + i]`, and its response belongs to the result `at + i`. Here the
requests are told apart by their place in the list and their url. What a result is stated to be is the string its own
response has at a path of members, and what the source leaves in its place where there is none.
-/

namespace Hand2.Fetch

open CJson

/-- The parsed response to request `k`, if it is for a url. -/
abbrev Responses := Nat → CString → Option CJson

/-- `"https://api.github.com/repos/%s/%s"`. -/
def repoUrl (organization repo : CString) : CString :=
  CString.lit "https://api.github.com/repos/" ++ organization ++ CString.lit "/" ++ repo

/-- `"https://api.github.com/repos/%s/%s/branches/%s"`. -/
def branchUrl (organization repo branch : CString) : CString :=
  repoUrl organization repo ++ CString.lit "/branches/" ++ branch

/-- The loop over batches: `urlOf (at + i)` is what worker `i` asks for, `read (at + i)` what is done with what it
    gets. -/
def fetchBatches {A : Type} (responses : Responses) (count : Nat) (githubToken : CString) (urlOf : Nat → CString)
    (read : Nat → Option CJson → A → A) (result : A) : Except Fault A :=
  Lockstep.batches maxWorker count
    (fun start workers result => do
      let urls ← (List.range workers).mapM (fun i => assignGithubGet githubToken (urlOf (start + i)))
      .ok ((List.range workers).foldl
        (fun result i => read (start + i) (responses (start + i) (elem urls i)) result) result))
    result

/-- The default branch a response gives, the empty string if it gives none. -/
def defaultBranchIn (json : Option CJson) : CString :=
  let defaultBranch := getObjectItemCaseSensitive json (CString.lit "default_branch")
  if isString defaultBranch then valuestring defaultBranch else CString.empty

/-- The commit a branch response gives, if it gives one. -/
def latestCommitIn (json : Option CJson) (out : GitCommitHash) : GitCommitHash :=
  let commit := getObjectItemCaseSensitive json (CString.lit "commit")
  let hash := getObjectItemCaseSensitive commit (CString.lit "sha")
  if isString hash then initGitCommitHash (valuestring hash) else out

/-- The creation time a repository response gives, if it gives one. -/
def creationTimeIn (json : Option CJson) (time : Int) : Int :=
  let creationTime := getObjectItemCaseSensitive json (CString.lit "created_at")
  if isString creationTime then parseTime (valuestring creationTime) timeZoneUtc0 else time

/-- `retrieve_default_branches`. -/
def retrieveDefaultBranches (responses : Responses) (repos : List CString) (githubToken organization : CString) :
    Except Fault (List CString) := do
  let result ← fetchBatches responses repos.length githubToken (fun k => repoUrl organization (elem repos k))
    (fun _ json result => result ++ [defaultBranchIn json]) []
  if result.length ≠ repos.length then .error .assertion else .ok result

/-- `retrieve_latest_commits`: the array `out_hash`. -/
def retrieveLatestCommits (responses : Responses) (repos branches : List CString) (githubToken organization : CString) :
    Except Fault (Nat → GitCommitHash) :=
  if repos.length ≠ branches.length then .error .assertion
  else
    fetchBatches responses repos.length githubToken
      (fun k => branchUrl organization (elem repos k) (elem branches k))
      (fun k json outHash => Function.update outHash k (latestCommitIn json (outHash k))) (fun _ => GitCommitHash.zero)

/-- `retrieve_creation_times`: the array `out_times`. -/
def retrieveCreationTimes (responses : Responses) (repos : List CString) (githubToken organization : CString) :
    Except Fault (Nat → Int) :=
  fetchBatches responses repos.length githubToken (fun k => repoUrl organization (elem repos k))
    (fun k json outTimes => Function.update outTimes k (creationTimeIn json (outTimes k))) (fun _ => 0)

/-! ## The loop -/

section Loop

variable {A : Type} (responses : Responses) (count : Nat) (githubToken : CString) (urlOf : Nat → CString)
variable (read : Nat → Option CJson → A → A)

/-- The urls of a batch, in their places. -/
theorem elem_batch_urls (urlOf : Nat → CString) (start : Nat) {workers i : Nat} (hi : i < workers) :
    elem ((List.range workers).map fun i => urlOf (start + i)) i = urlOf (start + i) := by
  simp [elem, List.getD, hi]

/-- The requests of a batch are made, or one of them ends the program. -/
theorem batch_urls (start workers : Nat) :
    ((∀ i < workers, GetFits githubToken (urlOf (start + i))) →
      (List.range workers).mapM (fun i => assignGithubGet githubToken (urlOf (start + i)))
        = .ok ((List.range workers).map fun i => urlOf (start + i))) ∧
    ((∃ i < workers, ¬ GetFits githubToken (urlOf (start + i))) →
      (List.range workers).mapM (fun i => assignGithubGet githubToken (urlOf (start + i))) = .error .exit) := by
  obtain ⟨hok, hexit⟩ := Loops.mapM_checks (l := List.range workers)
    (fun i (h : GetFits githubToken (urlOf (start + i))) => assignGithubGet_ok h)
    (fun i (h : ¬ GetFits githubToken (urlOf (start + i))) => assignGithubGet_exit h)
  refine ⟨fun hfits => hok fun i hi => hfits i (List.mem_range.mp hi), ?_⟩
  rintro ⟨i, hi, hlong⟩
  exact hexit ⟨i, List.mem_range.mpr hi, hlong⟩

/-- A batch reads, for each of its places, the response to the url of that place. -/
theorem fetchBatches_body :
    Lockstep.FoldBody count Fault.exit (fun k => GetFits githubToken (urlOf k))
      (fun result k => read k (responses k (urlOf k)) result)
      (fun start workers result => do
        let urls ← (List.range workers).mapM (fun i => assignGithubGet githubToken (urlOf (start + i)))
        .ok ((List.range workers).foldl
          (fun result i => read (start + i) (responses (start + i) (elem urls i)) result) result)) := by
  constructor
  · intro start workers result _ hfits
    rw [(batch_urls githubToken urlOf start workers).1 hfits]
    show Except.ok _ = Except.ok _
    congr 1
    apply List.foldl_ext
    intro result i hi
    rw [elem_batch_urls urlOf start (List.mem_range.mp hi)]
  · intro start workers result _ hlong
    rw [(batch_urls githubToken urlOf start workers).2 hlong]
    rfl

/-- **The loop, place by place.** -/
theorem fetchBatches_eq (result : A) :
    ((∀ k < count, GetFits githubToken (urlOf k)) →
      fetchBatches responses count githubToken urlOf read result
        = .ok ((List.range count).foldl (fun result k => read k (responses k (urlOf k)) result) result)) ∧
    ((∃ k < count, ¬ GetFits githubToken (urlOf k)) →
      fetchBatches responses count githubToken urlOf read result = .error .exit) :=
  Lockstep.batches_foldl maxWorker_pos (fetchBatches_body responses count githubToken urlOf read) result

end Loop

/-! ## The three functions -/

section Functions

variable (responses : Responses) (repos branches : List CString) (githubToken organization : CString)

/-- All requests for repositories can be made. -/
def RepoUrlsFit : Prop := ∀ k < repos.length, GetFits githubToken (repoUrl organization (elem repos k))

/-- All requests for branches can be made. -/
def BranchUrlsFit : Prop :=
  ∀ k < repos.length, GetFits githubToken (branchUrl organization (elem repos k) (elem branches k))

instance : Decidable (RepoUrlsFit repos githubToken organization) :=
  inferInstanceAs (Decidable (∀ k < repos.length, GetFits githubToken (repoUrl organization (elem repos k))))

instance : Decidable (BranchUrlsFit repos branches githubToken organization) :=
  inferInstanceAs (Decidable
    (∀ k < repos.length, GetFits githubToken (branchUrl organization (elem repos k) (elem branches k))))

/-- The default branches: one for every repository, so the assertion behind the loop holds. -/
theorem retrieveDefaultBranches_eq :
    (RepoUrlsFit repos githubToken organization →
      retrieveDefaultBranches responses repos githubToken organization
        = .ok ((List.range repos.length).map
            fun k => defaultBranchIn (responses k (repoUrl organization (elem repos k))))) ∧
    (¬ RepoUrlsFit repos githubToken organization →
      retrieveDefaultBranches responses repos githubToken organization = .error .exit) := by
  obtain ⟨hok, hexit⟩ := fetchBatches_eq responses repos.length githubToken
    (fun k => repoUrl organization (elem repos k)) (fun _ json result => result ++ [defaultBranchIn json]) []
  unfold retrieveDefaultBranches
  constructor
  · intro hfits
    have hmap : (List.range repos.length).foldl
          (fun result k => result ++ [defaultBranchIn (responses k (repoUrl organization (elem repos k)))]) []
        = (List.range repos.length).map
            fun k => defaultBranchIn (responses k (repoUrl organization (elem repos k))) := by
      rw [List.foldl_append_eq_append, List.nil_append, ← List.flatMap_def, ← List.map_eq_flatMap]
    rw [hok hfits, hmap]
    exact if_neg (by simp)
  · intro hlong
    unfold RepoUrlsFit at hlong
    push Not at hlong
    rw [hexit hlong]
    rfl

/-- The commits, with as many branches as repositories. -/
theorem retrieveLatestCommits_eq (hlen : branches.length = repos.length) :
    (BranchUrlsFit repos branches githubToken organization →
      retrieveLatestCommits responses repos branches githubToken organization
        = .ok (fun k => if k < repos.length then
            latestCommitIn (responses k (branchUrl organization (elem repos k) (elem branches k))) GitCommitHash.zero
          else GitCommitHash.zero)) ∧
    (¬ BranchUrlsFit repos branches githubToken organization →
      retrieveLatestCommits responses repos branches githubToken organization = .error .exit) := by
  obtain ⟨hok, hexit⟩ := fetchBatches_eq responses repos.length githubToken
    (fun k => branchUrl organization (elem repos k) (elem branches k))
    (fun k json outHash => Function.update outHash k (latestCommitIn json (outHash k))) (fun _ => GitCommitHash.zero)
  unfold retrieveLatestCommits
  rw [if_neg (fun hne => hne hlen.symm)]
  constructor
  · intro hfits
    rw [hok hfits, Lockstep.foldl_update_eq]
  · intro hlong
    unfold BranchUrlsFit at hlong
    push Not at hlong
    exact hexit hlong

/-- The creation times. -/
theorem retrieveCreationTimes_eq :
    (RepoUrlsFit repos githubToken organization →
      retrieveCreationTimes responses repos githubToken organization
        = .ok (fun k => if k < repos.length then
            creationTimeIn (responses k (repoUrl organization (elem repos k))) 0 else 0)) ∧
    (¬ RepoUrlsFit repos githubToken organization →
      retrieveCreationTimes responses repos githubToken organization = .error .exit) := by
  obtain ⟨hok, hexit⟩ := fetchBatches_eq responses repos.length githubToken
    (fun k => repoUrl organization (elem repos k))
    (fun k json outTimes => Function.update outTimes k (creationTimeIn json (outTimes k))) (fun _ => 0)
  unfold retrieveCreationTimes
  constructor
  · intro hfits
    rw [hok hfits, Lockstep.foldl_update_eq]
  · intro hlong
    unfold RepoUrlsFit at hlong
    push Not at hlong
    exact hexit hlong

end Functions

/-! ## What is read from a response -/

/-- `default_branch`, `commit.sha` and `created_at`. -/
def defaultBranchPath : List CString := [CString.lit "default_branch"]
def latestCommitPath : List CString := [CString.lit "commit", CString.lit "sha"]
def creationTimePath : List CString := [CString.lit "created_at"]

theorem defaultBranchIn_spec (response : Option CJson) :
    (∀ s, StringIn defaultBranchPath response s → defaultBranchIn response = s) ∧
      ((∀ s, ¬ StringIn defaultBranchPath response s) → defaultBranchIn response = CString.empty) := by
  simp only [defaultBranchPath, stringIn_cons]
  exact of_isString id CString.empty _

theorem latestCommitIn_spec (response : Option CJson) (out : GitCommitHash) :
    (∀ s, StringIn latestCommitPath response s → latestCommitIn response out = initGitCommitHash s) ∧
      ((∀ s, ¬ StringIn latestCommitPath response s) → latestCommitIn response out = out) := by
  simp only [latestCommitPath, stringIn_cons]
  exact of_isString initGitCommitHash out _

theorem creationTimeIn_spec (response : Option CJson) (time : Int) :
    (∀ s, StringIn creationTimePath response s → creationTimeIn response time = parseTime s timeZoneUtc0) ∧
      ((∀ s, ¬ StringIn creationTimePath response s) → creationTimeIn response time = time) := by
  simp only [creationTimePath, stringIn_cons]
  exact of_isString (fun s => parseTime s timeZoneUtc0) time _

/-- A commit is the string at its path if that has 40 characters, and zero in every other case. -/
theorem latestCommitIn_zero (response : Option CJson) :
    (∀ s, StringIn latestCommitPath response s → s.length = gitHashLen →
        (latestCommitIn response GitCommitHash.zero).full = s) ∧
      ((∀ s, StringIn latestCommitPath response s → s.length ≠ gitHashLen) →
        latestCommitIn response GitCommitHash.zero = GitCommitHash.zero) := by
  obtain ⟨hstring, hnone⟩ := latestCommitIn_spec response GitCommitHash.zero
  constructor
  · intro s hs hlen
    rw [hstring s hs, initGitCommitHash_full hlen]
  · intro hno
    by_cases hex : ∃ s, StringIn latestCommitPath response s
    · obtain ⟨s, hs⟩ := hex
      rw [hstring s hs, initGitCommitHash_zero (hno s hs)]
    · exact hnone fun s hs => hex ⟨s, hs⟩

/-- **Every result belongs to its repository.** However many repositories there are and whatever GitHub answers: there
    are as many default branches as repositories, and the `k`-th is the string that the response for repository `k` has
    at `default_branch`, empty where it has none; slot `k` holds the 40 characters that the response for repository `k`
    and branch `k` has at `commit.sha`, and is all zero where it has no such string; time `k` is the one written in the
    string that the response for repository `k` has at `created_at`, zero where it has none. A request that does not fit
    its buffers ends the program; no assertion ever fails. -/
theorem batched_fetches_aligned (responses : Responses) (repos branches : List CString)
    (githubToken organization : CString) (hlen : branches.length = repos.length) :
    ((RepoUrlsFit repos githubToken organization →
        ∃ defaultBranches, retrieveDefaultBranches responses repos githubToken organization = .ok defaultBranches ∧
          defaultBranches.length = repos.length ∧
          ∀ k < repos.length, ∀ response, response = responses k (repoUrl organization (elem repos k)) →
            (∀ s, StringIn defaultBranchPath response s → elem defaultBranches k = s) ∧
            ((∀ s, ¬ StringIn defaultBranchPath response s) → elem defaultBranches k = CString.empty)) ∧
      (¬ RepoUrlsFit repos githubToken organization →
        retrieveDefaultBranches responses repos githubToken organization = .error .exit)) ∧
    ((BranchUrlsFit repos branches githubToken organization →
        ∃ outHash, retrieveLatestCommits responses repos branches githubToken organization = .ok outHash ∧
          ∀ k < repos.length, ∀ response,
            response = responses k (branchUrl organization (elem repos k) (elem branches k)) →
            (∀ s, StringIn latestCommitPath response s → s.length = gitHashLen → (outHash k).full = s) ∧
            ((∀ s, StringIn latestCommitPath response s → s.length ≠ gitHashLen) →
              outHash k = GitCommitHash.zero)) ∧
      (¬ BranchUrlsFit repos branches githubToken organization →
        retrieveLatestCommits responses repos branches githubToken organization = .error .exit)) ∧
    ((RepoUrlsFit repos githubToken organization →
        ∃ outTimes, retrieveCreationTimes responses repos githubToken organization = .ok outTimes ∧
          ∀ k < repos.length, ∀ response, response = responses k (repoUrl organization (elem repos k)) →
            (∀ s, StringIn creationTimePath response s → outTimes k = parseTime s timeZoneUtc0) ∧
            ((∀ s, ¬ StringIn creationTimePath response s) → outTimes k = 0)) ∧
      (¬ RepoUrlsFit repos githubToken organization →
        retrieveCreationTimes responses repos githubToken organization = .error .exit)) := by
  obtain ⟨hbranches, hbranches'⟩ := retrieveDefaultBranches_eq responses repos githubToken organization
  obtain ⟨hcommits, hcommits'⟩ := retrieveLatestCommits_eq responses repos branches githubToken organization hlen
  obtain ⟨htimes, htimes'⟩ := retrieveCreationTimes_eq responses repos githubToken organization
  refine ⟨⟨fun hfits => ⟨_, hbranches hfits, by simp, fun k hk => ?_⟩, hbranches'⟩,
    ⟨fun hfits => ⟨_, hcommits hfits, fun k hk => ?_⟩, hcommits'⟩,
    ⟨fun hfits => ⟨_, htimes hfits, fun k hk => ?_⟩, htimes'⟩⟩
  · rintro response rfl
    have helem : elem ((List.range repos.length).map
          fun k => defaultBranchIn (responses k (repoUrl organization (elem repos k)))) k
        = defaultBranchIn (responses k (repoUrl organization (elem repos k))) := by
      simp [elem, List.getD, hk]
    rw [helem]
    exact defaultBranchIn_spec _
  · rintro response rfl
    rw [if_pos hk]
    exact latestCommitIn_zero _
  · rintro response rfl
    rw [if_pos hk]
    exact creationTimeIn_spec _ 0

/-- A course of 66 repositories, the last two of them in a batch of their own. -/
def manyRepos : List CString := (List.range 66).map fun k => CString.lit "hw1-" ++ CString.ofBytes (decimal k)

/-- All have the branch `main`. -/
def manyBranches : List CString := List.replicate 66 (CString.lit "main")

/-- One answer to every request for a repository, or for its branch. -/
def manyAnswer (branch sha created : String) : CJson :=
  .object [(CString.lit "default_branch", .string (CString.lit branch)),
    (CString.lit "commit", .object [(CString.lit "sha", .string (CString.lit sha))]),
    (CString.lit "created_at", .string (CString.lit created))]

/-- The second repository of each batch is answered; the first one of the second batch has a hash of the wrong type. -/
def manyResponses : Responses := fun k _ =>
  if k = 1 then some (manyAnswer "main" "1111111111111111111111111111111111111111" "2024-03-01T00:00:00Z")
  else if k = 64 then some (.object [(CString.lit "commit", .object [(CString.lit "sha", .number 7)])])
  else if k = 65 then some (manyAnswer "trunk" "2222222222222222222222222222222222222222" "2024-03-02T00:00:00Z")
  else none

theorem manyRepos_fit : RepoUrlsFit manyRepos (CString.lit "ghp_x") (CString.lit "course") ∧
    BranchUrlsFit manyRepos manyBranches (CString.lit "ghp_x") (CString.lit "course") := by
  decide +kernel

/-- The strings of an answer. -/
theorem manyAnswer_strings (branch sha created : String) :
    StringIn defaultBranchPath (some (manyAnswer branch sha created)) (CString.lit branch) ∧
      StringIn latestCommitPath (some (manyAnswer branch sha created)) (CString.lit sha) ∧
      StringIn creationTimePath (some (manyAnswer branch sha created)) (CString.lit created) := by
  simp only [defaultBranchPath, latestCommitPath, creationTimePath, stringIn_cons, stringIn_nil]
  exact ⟨rfl, rfl, rfl⟩

theorem batched_fetches_aligned_many :
    ∃ defaultBranches outHash outTimes,
      retrieveDefaultBranches manyResponses manyRepos (CString.lit "ghp_x") (CString.lit "course")
        = .ok defaultBranches ∧
      retrieveLatestCommits manyResponses manyRepos manyBranches (CString.lit "ghp_x") (CString.lit "course")
        = .ok outHash ∧
      retrieveCreationTimes manyResponses manyRepos (CString.lit "ghp_x") (CString.lit "course") = .ok outTimes ∧
      defaultBranches.length = 66 ∧ elem defaultBranches 64 = CString.empty ∧
      elem defaultBranches 65 = CString.lit "trunk" ∧ outHash 64 = GitCommitHash.zero ∧
      (outHash 65).full = CString.lit "2222222222222222222222222222222222222222" ∧
      outTimes 64 = 0 ∧ outTimes 65 = 1709337600 := by
  obtain ⟨hrepos, hbranches⟩ := manyRepos_fit
  obtain ⟨⟨hdefaults, -⟩, ⟨hcommits, -⟩, htimes, -⟩ := batched_fetches_aligned manyResponses manyRepos manyBranches
    (CString.lit "ghp_x") (CString.lit "course") rfl
  obtain ⟨defaultBranches, hdefaults, hlen, hbranch⟩ := hdefaults hrepos
  obtain ⟨outHash, hcommits, hcommit⟩ := hcommits hbranches
  obtain ⟨outTimes, htimes, htime⟩ := htimes hrepos
  obtain ⟨hmain, hsha, hcreated⟩ :=
    manyAnswer_strings "trunk" "2222222222222222222222222222222222222222" "2024-03-02T00:00:00Z"
  -- the answer of repository 64 has none of the strings
  have hnone : ∀ s, ¬ StringIn defaultBranchPath (manyResponses 64 CString.empty) s ∧
      ¬ StringIn latestCommitPath (manyResponses 64 CString.empty) s ∧
      ¬ StringIn creationTimePath (manyResponses 64 CString.empty) s := by
    intro s
    simp only [defaultBranchPath, latestCommitPath, creationTimePath, stringIn_cons, stringIn_nil]
    exact ⟨by simp [manyResponses, getObjectItemCaseSensitive, CString.lit], by
      simp [manyResponses, getObjectItemCaseSensitive], by simp [manyResponses, getObjectItemCaseSensitive]⟩
  refine ⟨defaultBranches, outHash, outTimes, hdefaults, hcommits, htimes, hlen, ?_, ?_, ?_, ?_, ?_, ?_⟩
  · exact (hbranch 64 (by decide) _ rfl).2 fun s => (hnone s).1
  · exact (hbranch 65 (by decide) _ rfl).1 _ hmain
  · exact (hcommit 64 (by decide) _ rfl).2 fun s hs => absurd hs (hnone s).2.1
  · exact (hcommit 65 (by decide) _ rfl).1 _ hsha (by decide)
  · exact (htime 64 (by decide) _ rfl).2 fun s => (hnone s).2.2
  · rw [(htime 65 (by decide) _ rfl).1 _ hcreated]
    decide

end Hand2.Fetch
