import Hand2.Library.CString
import Mathlib.Data.Option.Basic
import Mathlib.Logic.Function.Basic

/-!
# `Feedback.Push` — `push_to_remote`: the commit, the push, and the way back

The reports are committed on the branch that HEAD of the feedback repository is on, the branch is pushed, and a soft
reset takes it back to the commit the repository is cached under. The reset is the last link of a chain: whatever
fails between the commit and it leaves the branch on the new commit.
-/

namespace Hand2

structure GitSignature where
  name : CString
  email : CString
  time : Nat

/-- A commit of what `Tree` says is in it. -/
inductive GitCommit (Tree : Type) where
  | mk (tree : Tree) (author : GitSignature) (message : CString) (parents : List (GitCommit Tree))

/-- What HEAD says: a branch, which may have no commit yet, or a commit of its own. -/
inductive GitHead (Tree : Type) where
  | branch (name : CString)
  | detached (commit : GitCommit Tree)

/-- A reference: HEAD itself, a branch, or where a remote's branch was last seen. -/
inductive GitReference where
  | head
  | branch (name : CString)
  | remote (remote name : CString)
  deriving DecidableEq

/-- A repository. -/
structure GitRepository (Tree : Type) where
  head : GitHead Tree
  branches : CString → Option (GitCommit Tree)
  /-- The upstreams its branches are given. -/
  upstreams : CString → Option GitReference
  /-- The branches of its remotes, by the names of both, where they were last seen. -/
  tracking : CString × CString → Option (GitCommit Tree)
  /-- The branches of its remotes where they are. -/
  remotes : CString → Option (CString → Option (GitCommit Tree))
  workdir : Tree

/-- The calls that may fail for reasons of their own. -/
inductive GitCall where
  | signatureNow
  | signatureDup
  | repositoryOpen
  | repositoryHead
  | branchUpstream
  | repositoryIndex
  | indexAddAll
  | indexWriteTree
  | treeLookup
  | referencePeel
  | commitCreate
  | branchRemoteName
  | remoteLookup
  | remotePush
  | reset
  deriving DecidableEq

namespace GitReference

/-- `git_reference_is_branch`. -/
def isBranch : GitReference → Bool
  | branch _ => true
  | _        => false

/-- `git_reference_is_remote`. -/
def isRemote : GitReference → Bool
  | remote _ _ => true
  | _          => false

end GitReference

namespace GitRepository

variable {Tree : Type} (repo : GitRepository Tree)

/-- The commit HEAD points to. -/
def headCommit : Option (GitCommit Tree) :=
  match repo.head with
  | .branch name     => repo.branches name
  | .detached commit => some commit

/-- `git_repository_head`: a branch without a commit is refused. -/
def headReference : Option GitReference :=
  match repo.head with
  | .branch name => (repo.branches name).map (fun _ => .branch name)
  | .detached _  => some .head

/-- `git_reference_peel`, to a commit. -/
def referencePeel : GitReference → Option (GitCommit Tree)
  | .head        => repo.headCommit
  | .branch name => repo.branches name
  | .remote r b  => repo.tracking (r, b)

/-- `git_branch_upstream`: only a branch has one, and it must be there. -/
def branchUpstream : GitReference → Option GitReference
  | .branch name => (repo.upstreams name).filter (fun upstream => (repo.referencePeel upstream).isSome)
  | _            => none

/-- HEAD is moved, with the branch it is on: what `git_commit_create` does with `"HEAD"`, and `git_reset` softly. -/
def moveHead (commit : GitCommit Tree) : GitRepository Tree :=
  match repo.head with
  | .branch name => { repo with branches := Function.update repo.branches name (some commit) }
  | .detached _  => { repo with head := .detached commit }

/-- `git_branch_remote_name`, of an upstream. -/
def branchRemoteName : GitReference → Option CString
  | .remote r _ => some r
  | _           => none

/-- A branch arrives at a remote, under its own name. -/
def sendBranch (remote : CString) (ref : GitReference) : GitRepository Tree :=
  match ref with
  | .branch name =>
      { repo with
        remotes := Function.update repo.remotes remote
          ((repo.remotes remote).map (fun branches => Function.update branches name (repo.branches name))) }
  | _ => repo

/-- And is seen there. -/
def trackBranch (remote : CString) (ref : GitReference) : GitRepository Tree :=
  match ref with
  | .branch name => { repo with tracking := Function.update repo.tracking (remote, name) (repo.branches name) }
  | _            => repo

end GitRepository

section Push

variable {Tree : Type}

/-- A call that goes through has what it gives. -/
def GitCall.given {α : Type} (answers : GitCall → Bool) (call : GitCall) (value : Option α) : Option α :=
  if answers call then value else none

/-- The first condition of `push_to_remote`, call by call: the reference of HEAD, its upstream, the commit HEAD was on,
    and the repository behind the new commit. -/
def commitReports (answers : GitCall → Bool) (now : Nat) (commitMessage username email : CString)
    (repo : GitRepository Tree) : Option (GitReference × GitReference × GitCommit Tree × GitRepository Tree) := do
  let author      ← GitCall.given answers .signatureNow (some ⟨username, email, now⟩)
  let _committer  ← GitCall.given answers .signatureDup (some author)
  let repository  ← GitCall.given answers .repositoryOpen (some repo)
  let headRef     ← GitCall.given answers .repositoryHead repository.headReference
  let upstreamRef ← GitCall.given answers .branchUpstream (repository.branchUpstream headRef)
  guard headRef.isBranch
  guard upstreamRef.isRemote
  let _index       ← GitCall.given answers .repositoryIndex (some ())
  let index        ← GitCall.given answers .indexAddAll (some repository.workdir)
  let treeId       ← GitCall.given answers .indexWriteTree (some index)
  let tree         ← GitCall.given answers .treeLookup (some treeId)
  let parentCommit ← GitCall.given answers .referencePeel (repository.referencePeel headRef)
  let committed    ← GitCall.given answers .commitCreate
    (some (repository.moveHead (.mk tree author commitMessage [parentCommit])))
  return (headRef, upstreamRef, parentCommit, committed)

/-- `push_to_remote`, on the repository that is in `dir`: what it returns, and what becomes of the repository. A push
    that fails may have arrived (`arrived`). -/
def pushToRemote (answers : GitCall → Bool) (arrived : Bool) (now : Nat) (commitMessage username email : CString)
    (repo : GitRepository Tree) : Bool × GitRepository Tree :=
  match commitReports answers now commitMessage username email repo with
  | none => (false, repo)
  | some (headRef, upstreamRef, parentCommit, repository) =>
      match GitCall.given answers .branchRemoteName (GitRepository.branchRemoteName upstreamRef) with
      | none => (false, repository)
      | some remoteName =>
          match GitCall.given answers .remoteLookup (repository.remotes remoteName) with
          | none => (false, repository)
          | some _ =>
              if answers .remotePush then
                let pushed := (repository.sendBranch remoteName headRef).trackBranch remoteName headRef
                if answers .reset then (true, pushed.moveHead parentCommit) else (false, pushed)
              else (false, if arrived then repository.sendBranch remoteName headRef else repository)

end Push

/-! ## Moving HEAD -/

section MoveHead

variable {Tree : Type} (repo : GitRepository Tree)

@[simp] theorem headCommit_moveHead (commit : GitCommit Tree) : (repo.moveHead commit).headCommit = some commit := by
  obtain ⟨head, branches, upstreams, remotes, workdir⟩ := repo
  cases head with
  | branch name     => exact Function.update_self _ _ _
  | detached commit => rfl

/-- What is sent is not moved. -/
@[simp] theorem headCommit_sendBranch (remote : CString) (ref : GitReference) :
    (repo.sendBranch remote ref).headCommit = repo.headCommit := by
  unfold GitRepository.sendBranch
  split <;> rfl

@[simp] theorem headCommit_trackBranch (remote : CString) (ref : GitReference) :
    (repo.trackBranch remote ref).headCommit = repo.headCommit := by
  unfold GitRepository.trackBranch
  split <;> rfl

@[simp] theorem remotes_moveHead (commit : GitCommit Tree) : (repo.moveHead commit).remotes = repo.remotes := by
  unfold GitRepository.moveHead
  split <;> rfl

/-- A commit is not one of its parents. -/
theorem ne_of_mem_parents {tree : Tree} {author : GitSignature} {message : CString}
    {parents : List (GitCommit Tree)} {parent : GitCommit Tree} (h : parent ∈ parents) :
    GitCommit.mk tree author message parents ≠ parent := by
  intro heq
  have hlt := List.sizeOf_lt_of_mem h
  have hsize := congrArg sizeOf heq
  simp only [GitCommit.mk.sizeOf_spec] at hsize
  omega

end MoveHead

/-! ## When the branch is where it was -/

section Returns

variable {Tree : Type} (answers : GitCall → Bool) (repo : GitRepository Tree)

/-- The first thirteen calls go through: none fails of itself, and HEAD is on a branch with a commit and with an
    upstream that is a remote's and is there. -/
def CommitGoesThrough (name remote branch : CString) (parent : GitCommit Tree) : Prop :=
  (∀ call ∈ [GitCall.signatureNow, .signatureDup, .repositoryOpen, .repositoryHead, .branchUpstream, .repositoryIndex,
    .indexAddAll, .indexWriteTree, .treeLookup, .referencePeel, .commitCreate], answers call = true) ∧
  repo.head = .branch name ∧ repo.branches name = some parent ∧ repo.upstreams name = some (.remote remote branch) ∧
  (repo.tracking (remote, branch)).isSome

/-- And so do the three behind them: the remote is there, and takes the branch. -/
def PushGoesThrough (remote : CString) : Prop :=
  answers .branchRemoteName = true ∧ answers .remoteLookup = true ∧ (repo.remotes remote).isSome ∧
    answers .remotePush = true

variable {answers repo} {now : Nat} {commitMessage username email : CString}

theorem given_eq_some {α : Type} {call : GitCall} {value : Option α} {a : α} :
    GitCall.given answers call value = some a ↔ answers call = true ∧ value = some a := by
  unfold GitCall.given
  split <;> simp_all

/-- The commit that is made has the one HEAD is on for its parent. -/
theorem CommitGoesThrough.headCommit {name remote branch : CString} {parent : GitCommit Tree}
    (h : CommitGoesThrough answers repo name remote branch parent) : repo.headCommit = some parent := by
  obtain ⟨-, hname, hparent, -, -⟩ := h
  simp [GitRepository.headCommit, hname, hparent]

/-- HEAD's reference is a branch. -/
theorem headReference_isBranch {ref : GitReference} (h : repo.headReference = some ref) (hbranch : ref.isBranch) :
    ∃ name, ref = .branch name ∧ repo.head = .branch name := by
  obtain ⟨head, branches, upstreams, tracking, remotes, workdir⟩ := repo
  cases head with
  | branch name =>
      obtain ⟨_, -, rfl⟩ := Option.map_eq_some_iff.mp h
      exact ⟨name, rfl, rfl⟩
  | detached commit =>
      obtain rfl := Option.some.inj h
      cases hbranch

/-- The upstream of a branch is a remote's. -/
theorem branchUpstream_isRemote {name : CString} {ref : GitReference}
    (h : repo.branchUpstream (.branch name) = some ref) (hremote : ref.isRemote) :
    ∃ remote branch, ref = .remote remote branch ∧ repo.upstreams name = some (.remote remote branch) ∧
      (repo.tracking (remote, branch)).isSome := by
  obtain ⟨hupstream, hthere⟩ := Option.filter_eq_some_iff.mp h
  cases ref with
  | head               => cases hremote
  | branch name        => cases hremote
  | remote remote name => exact ⟨remote, name, rfl, hupstream, hthere⟩

/-- **The commit is made on top of the one HEAD is on**, if all the calls go through. -/
theorem commitReports_eq_some {headRef upstreamRef : GitReference} {parent : GitCommit Tree}
    {committed : GitRepository Tree} :
    commitReports answers now commitMessage username email repo = some (headRef, upstreamRef, parent, committed) ↔
      ∃ name remote branch, CommitGoesThrough answers repo name remote branch parent ∧ headRef = .branch name ∧
        upstreamRef = .remote remote branch ∧
        committed = repo.moveHead (.mk repo.workdir ⟨username, email, now⟩ commitMessage [parent]) := by
  constructor
  · intro h
    simp only [commitReports, Option.bind_eq_bind, Option.bind_eq_some_iff, given_eq_some, Option.some.injEq,
      exists_and_left, Option.guard_eq_some', exists_const, Option.pure_def, Prod.mk.injEq] at h
    obtain ⟨_, ⟨h1, rfl⟩, _, ⟨h2, rfl⟩, _, ⟨h3, rfl⟩, headRef, ⟨h4, hhead⟩, upstreamRef, ⟨h5, hupstream⟩, hbranch,
      hremote, ⟨h6, -⟩, _, ⟨h7, rfl⟩, _, ⟨h8, rfl⟩, _, ⟨h9, rfl⟩, parent, ⟨h10, hpeel⟩, _, ⟨h11, rfl⟩, rfl, rfl, rfl,
      rfl⟩ := h
    obtain ⟨name, rfl, hname⟩ := headReference_isBranch hhead hbranch
    obtain ⟨remote, branch, rfl, hup, hthere⟩ := branchUpstream_isRemote hupstream hremote
    refine ⟨name, remote, branch, ⟨?_, hname, hpeel, hup, hthere⟩, rfl, rfl, rfl⟩
    simp [h1, h2, h3, h4, h5, h6, h7, h8, h9, h10, h11]
  · rintro ⟨name, remote, branch, ⟨hcalls, hname, hparent, hup, hthere⟩, rfl, rfl, rfl⟩
    -- what each call gives
    have hhead : repo.headReference = some (.branch name) := by
      simp [GitRepository.headReference, hname, hparent]
    have hupstream : repo.branchUpstream (.branch name) = some (.remote remote branch) :=
      Option.filter_eq_some_iff.mpr ⟨hup, hthere⟩
    have hpeel : repo.referencePeel (.branch name) = some parent := hparent
    simp only [List.forall_mem_cons] at hcalls
    simp [commitReports, GitCall.given, guard, hcalls, hhead, hupstream, hpeel, GitReference.isBranch,
      GitReference.isRemote]

/-- No commit, no change. -/
theorem pushToRemote_of_none {arrived : Bool}
    (h : commitReports answers now commitMessage username email repo = none) :
    pushToRemote answers arrived now commitMessage username email repo = (false, repo) := by
  unfold pushToRemote
  rw [h]

variable (now commitMessage username email) in
/-- With the commit made, HEAD is where it was if the push goes through, and on the commit if it does not. -/
theorem headCommit_pushToRemote (arrived : Bool) {name remote branch : CString} {parent : GitCommit Tree}
    (hreset : answers .reset = true) (h : CommitGoesThrough answers repo name remote branch parent) :
    (PushGoesThrough answers repo remote →
      (pushToRemote answers arrived now commitMessage username email repo).2.headCommit = some parent) ∧
    (¬ PushGoesThrough answers repo remote →
      (pushToRemote answers arrived now commitMessage username email repo).2.headCommit =
        some (.mk repo.workdir ⟨username, email, now⟩ commitMessage [parent])) := by
  have hcommit : commitReports answers now commitMessage username email repo = some (.branch name,
      .remote remote branch, parent, repo.moveHead (.mk repo.workdir ⟨username, email, now⟩ commitMessage [parent])) :=
    commitReports_eq_some.mpr ⟨name, remote, branch, h, rfl, rfl, rfl⟩
  have hremotes := remotes_moveHead repo (.mk repo.workdir ⟨username, email, now⟩ commitMessage [parent])
  constructor
  · rintro ⟨hname, hlookup, hthere, hpush⟩
    obtain ⟨branches, hbranches⟩ := Option.isSome_iff_exists.mp hthere
    simp [pushToRemote, hcommit, GitRepository.branchRemoteName, GitCall.given, hname, hlookup, hbranches, hpush,
      hreset]
  · intro hfails
    simp only [pushToRemote, hcommit, GitRepository.branchRemoteName, hremotes, GitCall.given]
    by_cases hname : answers .branchRemoteName
    · by_cases hlookup : answers .remoteLookup
      · rcases hbranches : repo.remotes remote with _ | branches
        · simp [hname, hbranches]
        · -- the remote is there, so the push has failed
          have hpush : ¬ answers .remotePush := fun hpush => hfails ⟨hname, hlookup, by simp [hbranches], hpush⟩
          cases arrived <;> simp [hname, hlookup, hbranches, hpush]
      · simp [hname, hlookup]
    · simp [hname]

end Returns

/-- **HEAD is where it was exactly when the push goes through, if there was a commit to push**: any of the first
    thirteen calls that fails leaves the repository as it is, and the soft reset takes back what was pushed; a remote
    that is not found, or a push that fails, leaves HEAD on the new commit. -/
theorem pushToRemote_head_iff {Tree : Type} (answers : GitCall → Bool) (arrived : Bool) (now : Nat)
    (commitMessage username email : CString) (repo : GitRepository Tree) (hreset : answers .reset = true) :
    (pushToRemote answers arrived now commitMessage username email repo).2.headCommit = repo.headCommit ↔
      ∀ name remote branch parent, CommitGoesThrough answers repo name remote branch parent →
        PushGoesThrough answers repo remote := by
  constructor
  · intro hsame name remote branch parent hcommit
    by_contra hfails
    have hahead := (headCommit_pushToRemote now commitMessage username email arrived hreset hcommit).2 hfails
    rw [hahead, hcommit.headCommit, Option.some.injEq] at hsame
    exact ne_of_mem_parents (List.mem_singleton_self parent) hsame
  · intro hpush
    rcases hcommit : commitReports answers now commitMessage username email repo with _ | ⟨_, _, parent, _⟩
    · rw [pushToRemote_of_none hcommit]
    · obtain ⟨name, remote, branch, hgoes, -⟩ := commitReports_eq_some.mp hcommit
      rw [hgoes.headCommit]
      exact (headCommit_pushToRemote now commitMessage username email arrived hreset hgoes).1
        (hpush name remote branch parent hgoes)

/-- The first commit of a feedback repository. -/
def firstCommit : GitCommit CString :=
  .mk (CString.lit "empty") ⟨CString.lit "ta", CString.lit "ta@course", 0⟩ (CString.lit "init") []

/-- A clone of a feedback repository, as `git_clone` leaves it, with a report in it. -/
def feedbackClone : GitRepository CString where
  head := .branch (CString.lit "main")
  branches name := if name = CString.lit "main" then some firstCommit else none
  upstreams name :=
    if name = CString.lit "main" then some (.remote (CString.lit "origin") (CString.lit "main")) else none
  tracking branch := if branch = (CString.lit "origin", CString.lit "main") then some firstCommit else none
  remotes name :=
    if name = CString.lit "origin" then
      some (fun branch => if branch = CString.lit "main" then some firstCommit else none)
    else none
  workdir := CString.lit "report"

/-- Every call goes through, and HEAD is back. -/
theorem pushToRemote_head_iff_reset : (pushToRemote (fun _ => true) false 1 (CString.lit "update hw1 report")
    (CString.lit "ta") (CString.lit "ta@course") feedbackClone).2.headCommit = feedbackClone.headCommit := by
  refine (pushToRemote_head_iff (fun _ => true) false 1 (CString.lit "update hw1 report") (CString.lit "ta")
    (CString.lit "ta@course") feedbackClone rfl).mpr ?_
  rintro name remote branch parent ⟨-, hname, -, hup, -⟩
  -- the branch is main, and its remote is there
  obtain rfl : CString.lit "main" = name := GitHead.branch.inj hname
  obtain ⟨rfl, -⟩ := GitReference.remote.inj (Option.some.inj hup)
  exact ⟨rfl, rfl, rfl, rfl⟩

/-- **A push that is refused leaves HEAD on the new commit**, although nothing else fails. -/
theorem refused_push_moves_head :
    (pushToRemote (· != .remotePush) false 1 (CString.lit "update hw1 report") (CString.lit "ta")
      (CString.lit "ta@course") feedbackClone).1 = false ∧
    (pushToRemote (· != .remotePush) false 1 (CString.lit "update hw1 report") (CString.lit "ta")
      (CString.lit "ta@course") feedbackClone).2.headCommit ≠ feedbackClone.headCommit := by
  have hgoes : CommitGoesThrough (· != .remotePush) feedbackClone (CString.lit "main") (CString.lit "origin")
      (CString.lit "main") firstCommit := ⟨by decide, rfl, rfl, rfl, rfl⟩
  have hrefused : ¬ PushGoesThrough (· != .remotePush) feedbackClone (CString.lit "origin") := by
    rintro ⟨-, -, -, hpush⟩
    cases hpush
  refine ⟨rfl, ?_⟩
  rw [(headCommit_pushToRemote 1 _ _ _ false rfl hgoes).2 hrefused]
  intro heq
  exact ne_of_mem_parents (List.mem_singleton_self firstCommit) (Option.some.inj heq)

end Hand2
