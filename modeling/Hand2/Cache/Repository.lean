import Hand2.Hash
import Hand2.Common
import Hand2.Library.Runs
import Mathlib.Logic.Function.Basic

/-!
# `Cache.Repository` — `cache_repository`, under failures and kills

A checkout that exists is taken to be a good one, so it must not exist before it is. `clone_repository` works in the
temporary directory and renames it in the end; what it finds there may be left by any earlier call. The model is a
machine whose steps are the calls of the system: each may fail and leave what it leaves, and the process may be killed
before any of them. The disk says of every directory of the cache what was done to it, as far as it is known.
-/

namespace Hand2

/-- What is in a directory of the cache. -/
inductive Content where
  /-- What a delete, a clone or a reset that did not come to its end has left. -/
  | leftover (empty : Bool)
  /-- A successful clone. -/
  | clone (organization repo : CString)
  /-- A successful clone, after a successful hard reset to that commit. -/
  | checkout (organization repo : CString) (hash : GitCommitHash)
  deriving DecidableEq

/-- The arguments of `cache_repository`, with the hash it was given or has retrieved. -/
structure Request where
  username : CString
  githubToken : CString
  organization : CString
  repo : CString
  hash : GitCommitHash
  deriving DecidableEq

/-- Where the process is. -/
inductive CachePhase where
  /-- Not in a call: just started, or restarted. -/
  | started
  /-- Not in a call: the last one has returned this. -/
  | returned (r : Request) (success : Bool)
  /-- Before `delete_directory(g_git_temporary_dir)`. -/
  | deletingTemporary (r : Request)
  /-- Before `git_clone`. -/
  | cloning (r : Request)
  /-- Before `git_oid_fromstrn` and `git_commit_lookup`. -/
  | lookingUp (r : Request)
  /-- Before `git_reset`. -/
  | resetting (r : Request)
  /-- Before `delete_directory(dir)`. -/
  | deletingTarget (r : Request)
  /-- Before `rename_directory`. -/
  | publishing (r : Request)
  deriving DecidableEq

/-- The directories of the cache by their paths, and where the process is. -/
structure CacheState where
  disk : CString → Option Content
  phase : CachePhase

/-- An empty cache. -/
def CacheState.start : CacheState := ⟨fun _ => none, .started⟩

/-- What happens: a call begins, one of its steps ends in one way or another, or the process is killed. -/
inductive CacheEvent where
  | call (r : Request)
  | deleteTemporary (left : Option Content)
  | clone (succeeds : Bool) (left : Option Content)
  | lookup (succeeds : Bool)
  | reset (succeeds : Bool) (left : Option Content)
  | deleteTarget (left : Option Content)
  | rename (succeeds : Bool)
  | kill
  deriving DecidableEq

/-- `g_git_temporary_dir`: `"%s/tmp"`. -/
def temporaryDir (cacheDir : CString) : CString := cacheDir ++ CString.lit "/tmp"

/-- The directory of a checkout: `"%s/%s_%s"`. -/
def checkoutDir (cacheDir repo : CString) (hash : GitCommitHash) : CString :=
  cacheDir ++ CString.lit "/" ++ repo ++ CString.lit "_" ++ hash.full

/-- `"https://%s:%s@github.com/%s/%s.git"`. -/
def cloneUrl (r : Request) : CString :=
  CString.lit "https://" ++ r.username ++ CString.lit ":" ++ r.githubToken ++ CString.lit "@github.com/"
    ++ r.organization ++ CString.lit "/" ++ r.repo ++ CString.lit ".git"

/-- What a delete may leave of a directory: nothing, all of it, or some of it. -/
def DeleteLeaves (before after : Option Content) : Prop :=
  after = none ∨ after = before ∨ (before ≠ none ∧ (after = some (.leftover true) ∨ after = some (.leftover false)))

instance (before after : Option Content) : Decidable (DeleteLeaves before after) :=
  inferInstanceAs (Decidable (after = none ∨ after = before ∨
    (before ≠ none ∧ (after = some (.leftover true) ∨ after = some (.leftover false)))))

/-- What a step that fails may leave of the temporary directory. -/
def Abandoned (left : Option Content) : Prop :=
  left = none ∨ left = some (.leftover true) ∨ left = some (.leftover false)

instance (left : Option Content) : Decidable (Abandoned left) :=
  inferInstanceAs (Decidable (left = none ∨ left = some (.leftover true) ∨ left = some (.leftover false)))

/-- There is nothing in the directory, or no directory. -/
def Vacant (content : Option Content) : Prop := content = none ∨ content = some (.leftover true)

instance (content : Option Content) : Decidable (Vacant content) :=
  inferInstanceAs (Decidable (content = none ∨ content = some (.leftover true)))

/-- What a hard reset makes of a directory. -/
def resetTo (hash : GitCommitHash) : Option Content → Option Content
  | some (.clone organization repo) => some (.checkout organization repo hash)
  | _                               => some (.leftover false)

section Step

variable (cacheDir : CString)

/-- The directory of a request. -/
def Request.dir (r : Request) : CString := checkoutDir cacheDir r.repo r.hash

/-- `success = platform.directory_exists(dir)`. -/
def CacheState.finish (s : CacheState) (r : Request) : CacheState :=
  { s with phase := .returned r (s.disk (r.dir cacheDir)).isSome }

/-- `cache_repository` up to its first change of the disk; a buffer that is too short ends the process. -/
def CacheState.beginCall (s : CacheState) (r : Request) : CacheState :=
  if hashIsValid r.hash then
    match formatString maxPathLen (r.dir cacheDir) with
    | .error _ => { s with phase := .started }
    | .ok dir  =>
        if (s.disk dir).isSome then { s with phase := .returned r true }
        else match formatString maxUrlLen (cloneUrl r) with
          | .error _ => { s with phase := .started }
          | .ok _    => { s with phase := .deletingTemporary r }
  else { s with phase := .returned r false }

/-- `clone_repository` leaves `left` in the temporary directory, and is at `p`. -/
def CacheState.leave (s : CacheState) (left : Option Content) (p : CachePhase) : CacheState :=
  ⟨Function.update s.disk (temporaryDir cacheDir) left, p⟩

/-- A step: `git_clone` refuses a directory that is not empty, and `rename` needs a vacant target. -/
def cacheStep (s : CacheState) : CacheEvent → Option CacheState
  | .kill => some { s with phase := .started }
  | .call r =>
      match s.phase with
      | .started | .returned _ _ => some (s.beginCall cacheDir r)
      | _                        => none
  | .deleteTemporary left =>
      match s.phase with
      | .deletingTemporary r =>
          if DeleteLeaves (s.disk (temporaryDir cacheDir)) left then some (s.leave cacheDir left (.cloning r)) else none
      | _ => none
  | .clone succeeds left =>
      match s.phase with
      | .cloning r =>
          if succeeds then
            if Vacant (s.disk (temporaryDir cacheDir)) then
              some (s.leave cacheDir (some (.clone r.organization r.repo)) (.lookingUp r))
            else none
          -- refused, or failed before it wrote anything
          else if left = s.disk (temporaryDir cacheDir) then some (s.finish cacheDir r)
          else if Vacant (s.disk (temporaryDir cacheDir)) ∧ Abandoned left then
            some ((s.leave cacheDir left .started).finish cacheDir r)
          else none
      | _ => none
  | .lookup succeeds =>
      match s.phase with
      | .lookingUp r => some (if succeeds then { s with phase := .resetting r } else s.finish cacheDir r)
      | _            => none
  | .reset succeeds left =>
      match s.phase with
      | .resetting r =>
          if succeeds then
            some (s.leave cacheDir (resetTo r.hash (s.disk (temporaryDir cacheDir))) (.deletingTarget r))
          else if left = s.disk (temporaryDir cacheDir) ∨ Abandoned left then
            some ((s.leave cacheDir left .started).finish cacheDir r)
          else none
      | _ => none
  | .deleteTarget left =>
      match s.phase with
      | .deletingTarget r =>
          if DeleteLeaves (s.disk (r.dir cacheDir)) left then
            some ⟨Function.update s.disk (r.dir cacheDir) left, .publishing r⟩
          else none
      | _ => none
  | .rename succeeds =>
      match s.phase with
      | .publishing r =>
          if succeeds then
            -- the temporary directory is the checkout from here on
            if Vacant (s.disk (r.dir cacheDir)) then
              some (CacheState.finish cacheDir
                ⟨Function.update (Function.update s.disk (r.dir cacheDir) (s.disk (temporaryDir cacheDir)))
                  (temporaryDir cacheDir) none, .started⟩ r)
            else none
          else some (s.finish cacheDir r)
      | _ => none

end Step

/-! ## Paths -/

section Paths

variable {cacheDir : CString}

/-- **Different checkouts have different directories**, although names may hold underscores: the hash has a length. -/
theorem checkoutDir_inj {repo repo' : CString} {hash hash' : GitCommitHash} (h : hashIsValid hash)
    (h' : hashIsValid hash') (heq : checkoutDir cacheDir repo hash = checkoutDir cacheDir repo' hash') :
    repo = repo' ∧ hash = hash' := by
  have hbytes := congrArg CString.bytes heq
  have hlen : hash.full.bytes.length = hash'.full.bytes.length :=
    (hashIsValid_iff.mp h).trans (hashIsValid_iff.mp h').symm
  -- the hashes have the same length, so the names are split at the same place from behind
  obtain ⟨hfront, hfull⟩ := List.append_inj' hbytes hlen
  obtain ⟨hfront, -⟩ := List.append_inj' hfront rfl
  exact ⟨CString.ext (List.append_cancel_left hfront), GitCommitHash.ext_full (CString.ext hfull)⟩

/-- **None of them is the temporary directory**, whose name is too short. -/
theorem checkoutDir_ne_temporaryDir (repo : CString) {hash : GitCommitHash} (h : hashIsValid hash) :
    checkoutDir cacheDir repo hash ≠ temporaryDir cacheDir := by
  intro heq
  have hlen := congrArg CString.length heq
  have hhash : hash.full.length = 40 := hashIsValid_iff.mp h
  have hslash : (CString.lit "/").length = 1 := rfl
  have htmp : (CString.lit "/tmp").length = 4 := rfl
  simp only [checkoutDir, temporaryDir, CString.length_append] at hlen
  omega

end Paths

/-! ## What holds at every step -/

/-- What is known where a call is. -/
def PhaseOk (cacheDir : CString) (es : List CacheEvent) (disk : CString → Option Content) : CachePhase → Prop
  | .started             => True
  | .returned _ _        => True
  | .deletingTemporary r => hashIsValid r.hash ∧ .call r ∈ es ∧ disk (r.dir cacheDir) = none
  | .cloning r           => hashIsValid r.hash ∧ .call r ∈ es ∧ disk (r.dir cacheDir) = none
  | .lookingUp r         => hashIsValid r.hash ∧ .call r ∈ es ∧ disk (r.dir cacheDir) = none ∧
      disk (temporaryDir cacheDir) = some (.clone r.organization r.repo)
  | .resetting r         => hashIsValid r.hash ∧ .call r ∈ es ∧ disk (r.dir cacheDir) = none ∧
      disk (temporaryDir cacheDir) = some (.clone r.organization r.repo)
  | .deletingTarget r    => hashIsValid r.hash ∧ .call r ∈ es ∧ disk (r.dir cacheDir) = none ∧
      disk (temporaryDir cacheDir) = some (.checkout r.organization r.repo r.hash)
  | .publishing r          => hashIsValid r.hash ∧ .call r ∈ es ∧ disk (r.dir cacheDir) = none ∧
      disk (temporaryDir cacheDir) = some (.checkout r.organization r.repo r.hash)

/-- Every directory of a checkout is complete, by a call that was made for it. -/
def Published (cacheDir : CString) (es : List CacheEvent) (disk : CString → Option Content) : Prop :=
  ∀ repo hash, hashIsValid hash → ∀ content, disk (checkoutDir cacheDir repo hash) = some content →
    ∃ r, .call r ∈ es ∧ r.repo = repo ∧ r.hash = hash ∧ content = .checkout r.organization repo hash

/-- What holds of the cache whatever fails and whenever the process is killed. -/
structure CacheInv (cacheDir : CString) (es : List CacheEvent) (s : CacheState) : Prop where
  published : Published cacheDir es s.disk
  phase : PhaseOk cacheDir es s.disk s.phase

section Invariant

variable {cacheDir : CString} {es : List CacheEvent} {s s' : CacheState} {disk : CString → Option Content}

theorem CacheInv.start : CacheInv cacheDir [] CacheState.start where
  published := by
    intro repo hash _ content h
    cases h
  phase := trivial

theorem Published.mono (h : Published cacheDir es disk) (e : CacheEvent) : Published cacheDir (es ++ [e]) disk := by
  intro repo hash hvalid content hdisk
  obtain ⟨r, hcall, hr⟩ := h repo hash hvalid content hdisk
  exact ⟨r, List.mem_append_left _ hcall, hr⟩

/-- Work in the temporary directory publishes nothing. -/
theorem Published.temporary (h : Published cacheDir es disk) (left : Option Content) :
    Published cacheDir es (Function.update disk (temporaryDir cacheDir) left) := by
  intro repo hash hvalid content hdisk
  rw [Function.update_of_ne (checkoutDir_ne_temporaryDir repo hvalid)] at hdisk
  exact h repo hash hvalid content hdisk

/-- Nor does what it leaves change the directory of a request. -/
theorem temporary_dir {r : Request} (hvalid : hashIsValid r.hash) (disk : CString → Option Content)
    (left : Option Content) :
    Function.update disk (temporaryDir cacheDir) left (r.dir cacheDir) = disk (r.dir cacheDir) :=
  Function.update_of_ne (checkoutDir_ne_temporaryDir r.repo hvalid) _ _

/-- A call that ends where it is. -/
theorem CacheInv.finish {p : CachePhase} (h : Published cacheDir es disk) (r : Request) :
    CacheInv cacheDir es (CacheState.finish cacheDir ⟨disk, p⟩ r) := ⟨h, trivial⟩

/-- A call begins: it changes nothing yet, and goes on only if its directory is not there. -/
theorem CacheInv.beginCall (h : Published cacheDir es s.disk) (r : Request) :
    CacheInv cacheDir (es ++ [.call r]) (s.beginCall cacheDir r) := by
  have hpublished := h.mono (.call r)
  unfold CacheState.beginCall
  split
  · next hvalid =>
      split
      · exact ⟨hpublished, trivial⟩
      · next dir hdir =>
          obtain rfl : r.dir cacheDir = dir := eq_of_formatString hdir
          split
          · exact ⟨hpublished, trivial⟩
          · next hfree =>
              split
              · exact ⟨hpublished, trivial⟩
              · refine ⟨hpublished, hvalid, by simp, ?_⟩
                simpa using hfree
  · exact ⟨hpublished, trivial⟩

/-- What a delete leaves of a directory that is not there. -/
theorem deleteLeaves_none {left : Option Content} (h : DeleteLeaves none left) : left = none := by
  rcases h with h | h | ⟨h, -⟩
  · exact h
  · exact h
  · exact absurd rfl h

/-- A rename publishes the checkout that is in the temporary directory, for the request that has asked for it. -/
theorem Published.rename (h : Published cacheDir es disk) {r : Request} (hvalid : hashIsValid r.hash)
    (hcall : .call r ∈ es)
    (hcheckout : disk (temporaryDir cacheDir) = some (.checkout r.organization r.repo r.hash)) :
    Published cacheDir es (Function.update (Function.update disk (r.dir cacheDir) (disk (temporaryDir cacheDir)))
      (temporaryDir cacheDir) none) := by
  intro repo hash hvalid' content hdisk
  rw [Function.update_of_ne (checkoutDir_ne_temporaryDir repo hvalid')] at hdisk
  by_cases hsame : checkoutDir cacheDir repo hash = r.dir cacheDir
  -- it is the directory of the request, and so are the repository and the hash
  · obtain ⟨rfl, rfl⟩ := checkoutDir_inj hvalid' hvalid hsame
    replace hdisk : Function.update disk (r.dir cacheDir) _ (r.dir cacheDir) = _ := hdisk
    rw [Function.update_self] at hdisk
    exact ⟨r, hcall, rfl, rfl, Option.some.inj (hdisk.symm.trans hcheckout)⟩
  · rw [Function.update_of_ne hsame] at hdisk
    exact h repo hash hvalid' content hdisk

/-- The temporary directory is emptied, or not. -/
theorem CacheInv.deleteTemporary {left : Option Content} (h : CacheInv cacheDir es s)
    (hstep : cacheStep cacheDir s (.deleteTemporary left) = some s') :
    CacheInv cacheDir (es ++ [.deleteTemporary left]) s' := by
  have hpub := h.published.mono (.deleteTemporary left)
  obtain ⟨disk, phase⟩ := s
  have hphase := h.phase
  cases phase
  case deletingTemporary r =>
    obtain ⟨hvalid, hcall, hfree⟩ := hphase
    simp only [cacheStep] at hstep
    split at hstep
    · injection hstep with hstep
      subst hstep
      exact ⟨hpub.temporary left, hvalid, List.mem_append_left _ hcall, (temporary_dir hvalid _ _).trans hfree⟩
    · cases hstep
  all_goals cases hstep

/-- A clone that succeeds is all there is in the temporary directory; one that fails ends the call. -/
theorem CacheInv.clone {succeeds : Bool} {left : Option Content} (h : CacheInv cacheDir es s)
    (hstep : cacheStep cacheDir s (.clone succeeds left) = some s') :
    CacheInv cacheDir (es ++ [.clone succeeds left]) s' := by
  have hpub := h.published.mono (.clone succeeds left)
  obtain ⟨disk, phase⟩ := s
  have hphase := h.phase
  cases phase
  case cloning r =>
    obtain ⟨hvalid, hcall, hfree⟩ := hphase
    simp only [cacheStep] at hstep
    split at hstep
    · -- it succeeds, so the directory was vacant
      split at hstep
      · injection hstep with hstep
        subst hstep
        exact ⟨hpub.temporary _, hvalid, List.mem_append_left _ hcall, (temporary_dir hvalid _ _).trans hfree,
          Function.update_self _ _ _⟩
      · cases hstep
    · -- it fails, be it that it was refused or that it left something
      split at hstep
      · injection hstep with hstep
        subst hstep
        exact .finish hpub r
      · split at hstep
        · injection hstep with hstep
          subst hstep
          exact .finish (hpub.temporary left) r
        · cases hstep
  all_goals cases hstep

/-- A reset that succeeds makes the clone a checkout. -/
theorem CacheInv.reset {succeeds : Bool} {left : Option Content} (h : CacheInv cacheDir es s)
    (hstep : cacheStep cacheDir s (.reset succeeds left) = some s') :
    CacheInv cacheDir (es ++ [.reset succeeds left]) s' := by
  have hpub := h.published.mono (.reset succeeds left)
  obtain ⟨disk, phase⟩ := s
  have hphase := h.phase
  cases phase
  case resetting r =>
    obtain ⟨hvalid, hcall, hfree, hclone⟩ := hphase
    simp only [cacheStep] at hstep
    split at hstep
    · injection hstep with hstep
      subst hstep
      refine ⟨hpub.temporary _, hvalid, List.mem_append_left _ hcall, (temporary_dir hvalid _ _).trans hfree, ?_⟩
      show Function.update disk _ (resetTo r.hash (disk _)) _ = _
      rw [Function.update_self]
      exact congrArg (resetTo r.hash) hclone
    · split at hstep
      · injection hstep with hstep
        subst hstep
        exact .finish (hpub.temporary left) r
      · cases hstep
  all_goals cases hstep

/-- There is no target to delete. -/
theorem CacheInv.deleteTarget {left : Option Content} (h : CacheInv cacheDir es s)
    (hstep : cacheStep cacheDir s (.deleteTarget left) = some s') :
    CacheInv cacheDir (es ++ [.deleteTarget left]) s' := by
  have hpub := h.published.mono (.deleteTarget left)
  obtain ⟨disk, phase⟩ := s
  have hphase := h.phase
  cases phase
  case deletingTarget r =>
    obtain ⟨hvalid, hcall, hfree, hcheckout⟩ := hphase
    simp only [cacheStep] at hstep
    split at hstep
    · next hdeletes =>
        -- a delete leaves nothing where nothing is
        replace hfree : disk (r.dir cacheDir) = none := hfree
        rw [hfree] at hdeletes
        obtain rfl := deleteLeaves_none hdeletes
        rw [← hfree, Function.update_eq_self] at hstep
        injection hstep with hstep
        subst hstep
        exact ⟨hpub, hvalid, List.mem_append_left _ hcall, hfree, hcheckout⟩
    · cases hstep
  all_goals cases hstep

/-- The rename publishes, or the call ends without. -/
theorem CacheInv.rename {succeeds : Bool} (h : CacheInv cacheDir es s)
    (hstep : cacheStep cacheDir s (.rename succeeds) = some s') : CacheInv cacheDir (es ++ [.rename succeeds]) s' := by
  have hpub := h.published.mono (.rename succeeds)
  obtain ⟨disk, phase⟩ := s
  have hphase := h.phase
  cases phase
  case publishing r =>
    obtain ⟨hvalid, hcall, -, hcheckout⟩ := hphase
    simp only [cacheStep] at hstep
    split at hstep
    · split at hstep
      · injection hstep with hstep
        subst hstep
        exact .finish (hpub.rename hvalid (List.mem_append_left _ hcall) hcheckout) r
      · cases hstep
    · injection hstep with hstep
      subst hstep
      exact .finish hpub r
  all_goals cases hstep

/-- **Step lemma.** -/
theorem CacheInv.step {e : CacheEvent} (h : CacheInv cacheDir es s) (hstep : cacheStep cacheDir s e = some s') :
    CacheInv cacheDir (es ++ [e]) s' := by
  cases e with
  | kill =>
      injection hstep with hstep
      subst hstep
      exact ⟨h.published.mono _, trivial⟩
  | call r =>
      obtain ⟨disk, phase⟩ := s
      cases phase
      case started | returned =>
        injection hstep with hstep
        subst hstep
        exact .beginCall h.published r
      all_goals cases hstep
  | deleteTemporary left => exact h.deleteTemporary hstep
  | clone succeeds left  => exact h.clone hstep
  | lookup succeeds =>
      have hpub := h.published.mono (.lookup succeeds)
      obtain ⟨disk, phase⟩ := s
      have hphase := h.phase
      cases phase
      case lookingUp r =>
        obtain ⟨hvalid, hcall, hfree, hclone⟩ := hphase
        injection hstep with hstep
        subst hstep
        cases succeeds with
        | true  => exact ⟨hpub, hvalid, List.mem_append_left _ hcall, hfree, hclone⟩
        | false => exact .finish hpub r
      all_goals cases hstep
  | reset succeeds left => exact h.reset hstep
  | deleteTarget left   => exact h.deleteTarget hstep
  | rename succeeds     => exact h.rename hstep

/-- **Run lemma.** -/
theorem cacheInv_run (hrun : Machine.Run (cacheStep cacheDir) CacheState.start es s) : CacheInv cacheDir es s :=
  hrun.invariant _ CacheInv.start (fun _ _ _ _ h hstep => h.step hstep)

end Invariant

/-- **A checkout is published only when it is complete**: after any run from an empty cache, a directory that is the one
    of a repository and a valid hash was made by a call for them, as a clone of this repository that was reset to this
    hash; no other pair has that directory, and none has the temporary one. -/
theorem cache_published (cacheDir : CString) {es : List CacheEvent} {s : CacheState}
    (hrun : Machine.Run (cacheStep cacheDir) CacheState.start es s) :
    (∀ repo hash, hashIsValid hash → ∀ content, s.disk (checkoutDir cacheDir repo hash) = some content →
      ∃ r, .call r ∈ es ∧ r.repo = repo ∧ r.hash = hash ∧ content = .checkout r.organization repo hash) ∧
    (∀ repo hash repo' hash', hashIsValid hash → hashIsValid hash' → (repo, hash) ≠ (repo', hash') →
      checkoutDir cacheDir repo hash ≠ checkoutDir cacheDir repo' hash') ∧
    ∀ repo hash, hashIsValid hash → checkoutDir cacheDir repo hash ≠ temporaryDir cacheDir := by
  refine ⟨(cacheInv_run hrun).published, ?_, ?_⟩
  · intro repo hash repo' hash' h h' hne heq
    obtain ⟨rfl, rfl⟩ := checkoutDir_inj h h' heq
    exact hne rfl
  · intro repo hash h
    exact checkoutDir_ne_temporaryDir repo h

/-- The hash `aa..a`. -/
def hashA : GitCommitHash := initGitCommitHash (CString.lit "aaaaaaaaaaaaaaaaaaaaaaaaaaaaaaaaaaaaaaaa")

/-- A request for a student's repository. -/
def requestA : Request :=
  ⟨CString.lit "ta", CString.lit "token", CString.lit "course", CString.lit "hw1_amy", hashA⟩

/-- A call that is killed in its clone, and the same call again, which succeeds. -/
def killedOnce : List CacheEvent :=
  [.call requestA, .deleteTemporary none, .clone true none, .kill,
    .call requestA, .deleteTemporary (some (.leftover true)), .clone true none, .lookup true, .reset true none,
    .deleteTarget none, .rename true]

theorem cache_published_killedOnce : ∃ s,
    Machine.Run (cacheStep (CString.lit "/cache")) CacheState.start killedOnce s ∧
      ∃ content, s.disk (checkoutDir (CString.lit "/cache") (CString.lit "hw1_amy") hashA) = some content ∧
        ∃ r, .call r ∈ killedOnce ∧ r.repo = CString.lit "hw1_amy" ∧ r.hash = hashA ∧
          content = .checkout r.organization (CString.lit "hw1_amy") hashA := by
  have hsome : (killedOnce.foldlM (cacheStep (CString.lit "/cache")) CacheState.start).isSome := by decide
  -- the checkout is there behind the second call
  have hthere : ((Option.get _ hsome).disk
      (checkoutDir (CString.lit "/cache") (CString.lit "hw1_amy") hashA)).isSome := by
    decide +revert
  have hrun : Machine.Run (cacheStep (CString.lit "/cache")) CacheState.start killedOnce _ :=
    Machine.run_iff_foldlM.mpr (Option.some_get hsome).symm
  refine ⟨_, hrun, Option.get _ hthere, (Option.some_get hthere).symm, ?_⟩
  exact (cache_published (CString.lit "/cache") hrun).1 _ hashA (by decide) _ (Option.some_get hthere).symm

end Hand2
