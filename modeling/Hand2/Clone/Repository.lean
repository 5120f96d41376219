import Hand2.Cache.Repository

/-!
# `Clone.Repository` — what `clone_repository` reports

The function works in the temporary directory and renames it in the end, and what it returns is whether there is a
directory at `dir` then. Each of its calls may fail; what a failure leaves is part of the run. What a call has made
is told from what it has found.
-/

namespace Hand2

/-- What a call finds at a path. -/
inductive Found where
  | file
  | directory (content : Content)
  deriving DecidableEq

/-- What is at a path in the course of a call. -/
inductive Entry where
  | found (f : Found)
  /-- A directory that the call has made. -/
  | made (content : Content)
  deriving DecidableEq

/-- How a `delete_directory` goes. -/
inductive Deletion where
  | complete
  | untouched
  | partly (empty : Bool)
  deriving DecidableEq

/-- How a call that writes to the temporary directory goes. -/
inductive Attempt where
  | succeeds
  | refused
  /-- It fails, and leaves an incomplete directory or none. -/
  | abandons (left : Option Bool)
  deriving DecidableEq

/-- The fallible steps of a call. -/
structure CloneRun where
  deleteTemporary : Deletion
  clone : Attempt
  /-- `git_oid_fromstrn` and `git_commit_lookup`. -/
  lookup : Bool
  reset : Attempt
  deleteTarget : Deletion
  rename : Bool

/-- `platform.directory_exists`. -/
def directoryExists : Option Entry → Bool
  | none | some (.found .file)                  => false
  | some (.found (.directory _)) | some (.made _) => true

/-- A clone and a rename can go there. -/
def isVacant : Option Entry → Bool
  | none                                           => true
  | some (.found (.directory (.leftover empty))) => empty
  | some (.made (.leftover empty))                 => empty
  | _                                              => false

/-- `platform.delete_directory`: a file stays. -/
def Deletion.apply : Deletion → Option Entry → Option Entry
  | complete,     some (.found (.directory _)) => none
  | complete,     some (.made _)               => none
  | partly empty, some (.found (.directory _)) => some (.found (.directory (.leftover empty)))
  | partly empty, some (.made _)               => some (.made (.leftover empty))
  | _,            entry                        => entry

/-- What is left of an attempt. -/
def abandoned (left : Option Bool) : Option Entry := left.map (fun empty => .made (.leftover empty))

/-- `git_clone`: a directory that is not empty is refused. -/
def gitClone (attempt : Attempt) (r : Request) (entry : Option Entry) : Bool × Option Entry :=
  if isVacant entry then
    match attempt with
    | .succeeds      => (true, some (.made (.clone r.organization r.repo)))
    | .refused       => (false, entry)
    | .abandons left => (false, abandoned left)
  else (false, entry)

/-- `git_reset`, a hard one, of what `git_clone` has made. -/
def gitReset (attempt : Attempt) (hash : GitCommitHash) (entry : Option Entry) : Bool × Option Entry :=
  match attempt, entry with
  | .succeeds,      some (.made content) => (true, (resetTo hash content).map .made)
  | .abandons left, _                    => (false, abandoned left)
  | _,              entry                => (false, entry)

/-- `platform.rename_directory`: nothing happens where both paths are the same. -/
def renameDirectory (succeeds : Bool) (target source : CString) (disk : CString → Option Entry) :
    CString → Option Entry :=
  if succeeds && isVacant (disk target) && directoryExists (disk source) && target != source then
    Function.update (Function.update disk target (disk source)) source none
  else disk

/-- `clone_and_reset_success`, and what is in the temporary directory then. -/
def cloneAndReset (run : CloneRun) (r : Request) (entry : Option Entry) : Bool × Option Entry :=
  match gitClone run.clone r entry with
  | (false, left) => (false, left)
  | (true, left)  => if run.lookup then gitReset run.reset r.hash left else (false, left)

/-- The assertion on the hash, and the buffer of the url. -/
def beginClone (r : Request) : Except Fault CString :=
  if hashIsValid r.hash then formatString maxUrlLen (cloneUrl r) else .error .assertion

/-- `clone_repository(dir, ...)`: what it returns, and what it leaves on the disk. -/
def cloneRepository (run : CloneRun) (temporary dir : CString) (r : Request) (before : CString → Option Found) :
    Except Fault (Bool × (CString → Option Entry)) := do
  let _url ← beginClone r
  let disk path := (before path).map Entry.found
  let (done, left) := cloneAndReset run r (run.deleteTemporary.apply (disk temporary))
  let disk := Function.update disk temporary left
  let disk :=
    if done then
      renameDirectory run.rename dir temporary (Function.update disk dir (run.deleteTarget.apply (disk dir)))
    else disk
  return (directoryExists (disk dir), disk)

/-! ## The temporary directory -/

/-- What the call is asked for. -/
def Request.checkout (r : Request) : Content := .checkout r.organization r.repo r.hash

namespace CloneRun

variable (run : CloneRun)

/-- What `delete_directory(g_git_temporary_dir)` leaves of what is found there. -/
def cleared (temporary : Option Found) : Option Entry := run.deleteTemporary.apply (temporary.map .found)

/-- Clone, lookup and reset succeed, over what is found in the temporary directory. -/
def ChecksOut (temporary : Option Found) : Prop :=
  isVacant (run.cleared temporary) = true ∧ run.clone = .succeeds ∧ run.lookup = true ∧ run.reset = .succeeds

/-- One of them fails, and leaves no directory there. -/
def LeavesNone (temporary : Option Found) : Prop :=
  if isVacant (run.cleared temporary) then
    match run.clone with
    | .succeeds      => run.lookup = true ∧ run.reset = .abandons none
    | .refused       => directoryExists (run.cleared temporary) = false
    | .abandons left => left = none
  else directoryExists (run.cleared temporary) = false

instance (temporary : Option Found) : Decidable (run.ChecksOut temporary) :=
  inferInstanceAs (Decidable (isVacant (run.cleared temporary) = true ∧ run.clone = .succeeds ∧ run.lookup = true ∧
    run.reset = .succeeds))

end CloneRun

section Temporary

variable {run : CloneRun} {r : Request} {entry : Option Entry} {temporary : Option Found}

@[simp] theorem directoryExists_abandoned (left : Option Bool) :
    directoryExists (abandoned left) = false ↔ left = none := by
  cases left <;> simp [abandoned, directoryExists]

theorem abandoned_ne_checkout (left : Option Bool) : abandoned left ≠ some (.made r.checkout) := by
  cases left <;> simp [abandoned, Request.checkout]

/-- What is found is not what the call has made, whatever a delete leaves of it. -/
theorem apply_ne_made (deletion : Deletion) (found : Option Found) (content : Content) :
    deletion.apply (found.map .found) ≠ some (.made content) := by
  rcases found with _ | _ | _ <;> cases deletion <;> simp [Deletion.apply]

/-- **The checkout is made**, if nothing fails. -/
theorem cloneAndReset_checksOut (h : run.ChecksOut temporary) :
    cloneAndReset run r (run.cleared temporary) = (true, some (.made r.checkout)) := by
  obtain ⟨hvacant, hclone, hlookup, hreset⟩ := h
  simp [cloneAndReset, gitClone, hvacant, hclone, hlookup, hreset, gitReset, resetTo, Request.checkout]

/-- If anything does, what is left is not the checkout. -/
theorem cloneAndReset_fails (h : ¬ run.ChecksOut temporary) :
    (cloneAndReset run r (run.cleared temporary)).1 = false ∧
      (directoryExists (cloneAndReset run r (run.cleared temporary)).2 = false ↔ run.LeavesNone temporary) ∧
      (cloneAndReset run r (run.cleared temporary)).2 ≠ some (.made r.checkout) := by
  have hfound : run.cleared temporary ≠ some (.made r.checkout) := apply_ne_made _ _ _
  by_cases hvacant : isVacant (run.cleared temporary)
  · cases hclone : run.clone with
    | succeeds =>
        by_cases hlookup : run.lookup
        · cases hreset : run.reset with
          | succeeds      => exact absurd ⟨hvacant, hclone, hlookup, hreset⟩ h
          | refused       =>
              -- it is a clone still
              simp [cloneAndReset, gitClone, gitReset, CloneRun.LeavesNone, directoryExists, Request.checkout, hvacant,
                hclone, hlookup, hreset]
          | abandons left =>
              simp [cloneAndReset, gitClone, gitReset, CloneRun.LeavesNone, abandoned_ne_checkout, hvacant, hclone,
                hlookup, hreset]
        · simp [cloneAndReset, gitClone, CloneRun.LeavesNone, directoryExists, Request.checkout, hvacant, hclone,
            hlookup]
    | refused       => simp [cloneAndReset, gitClone, CloneRun.LeavesNone, hvacant, hclone, hfound]
    | abandons left => simp [cloneAndReset, gitClone, CloneRun.LeavesNone, abandoned_ne_checkout, hvacant, hclone]
  · simp [cloneAndReset, gitClone, CloneRun.LeavesNone, hvacant, hfound]

end Temporary

/-! ## The target -/

namespace CloneRun

variable (run : CloneRun) (temporary dir : CString) (before : CString → Option Found)

/-- What `delete_directory(dir)` leaves of what is found there. -/
def replaced (target : Option Found) : Option Entry := run.deleteTarget.apply (target.map .found)

/-- A directory at `dir` in the end is the checkout. Where clone, lookup and reset succeed, the rename does too, or the
    delete leaves no directory; where one of them fails, none was found. If `dir` is the temporary directory itself,
    it is what the steps leave there that counts. -/
def Truthful : Prop :=
  if run.ChecksOut (before temporary) then
    if dir = temporary then ∀ empty, run.deleteTarget ≠ .partly empty
    else (run.rename = true ∧ isVacant (run.replaced (before dir)) = true) ∨
      directoryExists (run.replaced (before dir)) = false
  else if dir = temporary then run.LeavesNone (before temporary)
  else directoryExists ((before dir).map .found) = false

end CloneRun

section Target

variable {run : CloneRun} {temporary dir : CString} {r : Request} {before : CString → Option Found}

/-- The call, behind the assertion and the url. -/
theorem cloneRepository_eq {url : CString} (h : beginClone r = .ok url) :
    cloneRepository run temporary dir r before = .ok (
      let (done, left) := cloneAndReset run r (run.cleared (before temporary))
      let disk := Function.update (fun path => (before path).map Entry.found) temporary left
      let disk :=
        if done then
          renameDirectory run.rename dir temporary (Function.update disk dir (run.deleteTarget.apply (disk dir)))
        else disk
      (directoryExists (disk dir), disk)) := by
  unfold cloneRepository
  rw [h]
  rfl

variable (dir) in
/-- Nothing is done with `dir` where a step fails. -/
theorem cloneRepository_fails {url : CString} (hbegin : beginClone r = .ok url)
    (h : ¬ run.ChecksOut (before temporary)) :
    ∃ disk, cloneRepository run temporary dir r before = .ok (directoryExists (disk dir), disk) ∧
      disk = Function.update (fun path => (before path).map Entry.found) temporary
        (cloneAndReset run r (run.cleared (before temporary))).2 := by
  obtain ⟨hdone, -, -⟩ := cloneAndReset_fails (r := r) h
  refine ⟨_, ?_, rfl⟩
  rw [cloneRepository_eq hbegin]
  simp [hdone]

variable (dir) in
/-- Where all succeed, it is emptied, and takes the checkout. -/
theorem cloneRepository_checksOut {url : CString} (hbegin : beginClone r = .ok url)
    (h : run.ChecksOut (before temporary)) :
    ∃ disk, cloneRepository run temporary dir r before = .ok (directoryExists (disk dir), disk) ∧
      disk = renameDirectory run.rename dir temporary
        (Function.update
          (Function.update (fun path => (before path).map Entry.found) temporary (some (.made r.checkout))) dir
          (run.deleteTarget.apply (Function.update (fun path => (before path).map Entry.found) temporary
            (some (.made r.checkout)) dir))) := by
  refine ⟨_, ?_, rfl⟩
  rw [cloneRepository_eq hbegin, cloneAndReset_checksOut h]
  rfl

/-- What stands at the target in the end, if it is not the temporary directory. -/
theorem target_of_checksOut {url : CString} (hbegin : beginClone r = .ok url) (h : run.ChecksOut (before temporary))
    (hne : dir ≠ temporary) :
    ∃ disk, cloneRepository run temporary dir r before = .ok (directoryExists (disk dir), disk) ∧
      disk dir = if run.rename = true ∧ isVacant (run.replaced (before dir)) = true then some (.made r.checkout)
        else run.replaced (before dir) := by
  obtain ⟨disk, hrun, hdisk⟩ := cloneRepository_checksOut dir hbegin h
  refine ⟨disk, hrun, ?_⟩
  have hthere : directoryExists (some (.made r.checkout)) = true := rfl
  have hreplaced : run.deleteTarget.apply ((before dir).map .found) = run.replaced (before dir) := rfl
  rw [hdisk, renameDirectory]
  simp only [Function.update_of_ne hne, Function.update_of_ne hne.symm, Function.update_self, hthere,
    bne_iff_ne.mpr hne, Bool.and_true, Bool.and_eq_true, hreplaced]
  split
  -- both sides split at once
  · rw [Function.update_of_ne hne, Function.update_self]
  · rw [Function.update_self]

/-- If it is, the rename does nothing, and what the delete leaves of the checkout stands there. -/
theorem temporary_of_checksOut {url : CString} (hbegin : beginClone r = .ok url)
    (h : run.ChecksOut (before temporary)) :
    ∃ disk, cloneRepository run temporary temporary r before = .ok (directoryExists (disk temporary), disk) ∧
      disk temporary = run.deleteTarget.apply (some (.made r.checkout)) := by
  obtain ⟨disk, hrun, hdisk⟩ := cloneRepository_checksOut temporary hbegin h
  refine ⟨disk, hrun, ?_⟩
  rw [hdisk, renameDirectory]
  simp

/-- A call that has returned says what it says of what it has left. -/
theorem success_iff {disk : CString → Option Entry}
    (hrun : cloneRepository run temporary dir r before = .ok (directoryExists (disk dir), disk)) :
    (∀ disk, cloneRepository run temporary dir r before = .ok (true, disk) → disk dir = some (.made r.checkout)) ↔
      (directoryExists (disk dir) = true → disk dir = some (.made r.checkout)) := by
  rw [hrun]
  constructor
  · intro h hexists
    exact h disk (by rw [hexists])
  · rintro h _ heq
    obtain ⟨hexists, rfl⟩ := Prod.mk.inj (Except.ok.inj heq)
    exact h hexists

/-- Behind the assertion and the url, the call tells the truth exactly under the condition. -/
theorem cloneRepository_truthful {url : CString} (hbegin : beginClone r = .ok url) :
    (∀ disk, cloneRepository run temporary dir r before = .ok (true, disk) → disk dir = some (.made r.checkout)) ↔
      run.Truthful temporary dir before := by
  unfold CloneRun.Truthful
  by_cases hchecks : run.ChecksOut (before temporary)
  · rw [if_pos hchecks]
    by_cases hsame : dir = temporary
    · subst hsame
      obtain ⟨disk, hrun, hdisk⟩ := temporary_of_checksOut hbegin hchecks
      rw [if_pos rfl, success_iff hrun, hdisk]
      cases run.deleteTarget with
      | complete     => simp [Deletion.apply, directoryExists]
      | untouched    => simp [Deletion.apply]
      | partly empty => simp [Deletion.apply, directoryExists, Request.checkout]
    · obtain ⟨disk, hrun, hdisk⟩ := target_of_checksOut hbegin hchecks hsame
      rw [if_neg hsame, success_iff hrun, hdisk]
      by_cases hrename : run.rename = true ∧ isVacant (run.replaced (before dir)) = true
      · simp [hrename]
      · -- what is left was found there, and is not what the call has made
        have hfound : run.replaced (before dir) ≠ some (.made r.checkout) := apply_ne_made _ _ _
        simp [hrename, hfound]
  · rw [if_neg hchecks]
    obtain ⟨disk, hrun, hdisk⟩ := cloneRepository_fails dir hbegin hchecks
    obtain ⟨-, hnone, hne⟩ := cloneAndReset_fails (r := r) hchecks
    rw [success_iff hrun, hdisk]
    by_cases hsame : dir = temporary
    · subst hsame
      rw [if_pos rfl, Function.update_self, ← hnone]
      simp [hne]
    · rw [if_neg hsame, Function.update_of_ne hsame]
      simp

/-- The call goes past its assertion and its url. -/
theorem beginClone_ok (hvalid : hashIsValid r.hash = true) (hfits : (cloneUrl r).length < maxUrlLen) :
    beginClone r = .ok (cloneUrl r) := by
  rw [beginClone, if_pos hvalid, formatString_ok hfits]

/-- Or ends the program at one of them. -/
theorem beginClone_error (h : ¬ (hashIsValid r.hash = true ∧ (cloneUrl r).length < maxUrlLen)) :
    ∃ fault, beginClone r = .error fault := by
  unfold beginClone
  split
  · next hvalid => exact ⟨.exit, formatString_exit (Nat.le_of_not_lt fun hfits => h ⟨hvalid, hfits⟩)⟩
  · exact ⟨.assertion, rfl⟩

end Target

/-- **When a reported success is the checkout**, for anything found at any two paths, and any failures: a call that
    returns 1 has left the requested checkout at `dir`, made by itself, if and only if it does not return at all (the
    hash is not valid, or the url too long) or `Truthful` holds. -/
theorem clone_success_iff (run : CloneRun) (temporary dir : CString) (r : Request) (before : CString → Option Found) :
    (∀ disk, cloneRepository run temporary dir r before = .ok (true, disk) → disk dir = some (.made r.checkout)) ↔
      (hashIsValid r.hash = true → (cloneUrl r).length < maxUrlLen → run.Truthful temporary dir before) := by
  by_cases hbegin : hashIsValid r.hash = true ∧ (cloneUrl r).length < maxUrlLen
  · rw [cloneRepository_truthful (beginClone_ok hbegin.1 hbegin.2)]
    exact ⟨fun h _ _ => h, fun h => h hbegin.1 hbegin.2⟩
  · obtain ⟨fault, hfault⟩ := beginClone_error hbegin
    refine ⟨fun _ hvalid hfits => absurd ⟨hvalid, hfits⟩ hbegin, fun _ disk hrun => ?_⟩
    rw [cloneRepository, hfault] at hrun
    cases hrun

/-- A clone that fails at once, over an empty temporary directory. -/
def networkDown : CloneRun where
  deleteTemporary := .complete
  clone := .refused
  lookup := true
  reset := .succeeds
  deleteTarget := .complete
  rename := true

/-- An older clone of Amy's repository, at another commit, in the directory of the homework. -/
def olderClone (path : CString) : Option Found :=
  if path = CString.lit "hw1/hw1_amy" then
    some (.directory (.checkout (CString.lit "course") (CString.lit "hw1_amy")
      (initGitCommitHash (CString.lit "bbbbbbbbbbbbbbbbbbbbbbbbbbbbbbbbbbbbbbbb"))))
  else none

/-- **Success over an older clone**: nothing could be fetched, and the call returns 1. -/
theorem older_clone_reported :
    ∃ disk, cloneRepository networkDown (CString.lit "cache/tmp") (CString.lit "hw1/hw1_amy") requestA olderClone
        = .ok (true, disk) ∧
      disk (CString.lit "hw1/hw1_amy") ≠ some (.made requestA.checkout) := by
  have hbegin : beginClone requestA = .ok (cloneUrl requestA) := beginClone_ok (by decide) (by decide)
  have hfails : ¬ networkDown.ChecksOut (olderClone (CString.lit "cache/tmp")) := by
    rintro ⟨-, hclone, -⟩
    cases hclone
  obtain ⟨disk, hrun, hdisk⟩ := cloneRepository_fails (CString.lit "hw1/hw1_amy") hbegin hfails
  have hdir : disk (CString.lit "hw1/hw1_amy") = (olderClone (CString.lit "hw1/hw1_amy")).map Entry.found := by
    rw [hdisk, Function.update_of_ne (by decide)]
  refine ⟨disk, ?_, ?_⟩
  · rw [hrun, hdir]
    rfl
  · rw [hdir]
    simp

end Hand2
