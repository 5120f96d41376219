import Hand2.Clone.Repository

/-!
# `Clone.Refinement` — a call of `clone_repository` is a run of the cache

The machine of `Cache.Repository` takes the calls of the system one at a time, and `cloneRepository` is the function as
it stands; they say what is on the disk in different words. Each part of the function is a run of the machine, and the
whole is their composition (`cloneRepository_run`). Where the cache calls it, no target is there, and so its answer is
right (`cached_clone`).
-/

namespace Hand2

/-- What an entry is to the cache; a file is in the way like a directory that is not empty. -/
def Entry.content : Entry → Content
  | .found .file                                    => .leftover false
  | .found (.directory content) | .made content => content

/-- The disk as the cache sees it. -/
def contents (disk : CString → Option Entry) (path : CString) : Option Content := (disk path).map Entry.content

/-! ## Entries and their contents -/

theorem isVacant_iff (entry : Option Entry) : isVacant entry = true ↔ Vacant (entry.map Entry.content) := by
  rcases entry with _ | (_ | content) | content
  · simp [isVacant, Vacant]
  · simp [isVacant, Vacant, Entry.content]
  · cases content <;> simp [isVacant, Vacant, Entry.content]
  · cases content <;> simp [isVacant, Vacant, Entry.content]

theorem deleteLeaves_apply (deletion : Deletion) (entry : Option Entry) :
    DeleteLeaves (entry.map Entry.content) ((deletion.apply entry).map Entry.content) := by
  rcases entry with _ | (_ | content) | content <;> cases deletion <;>
    simp [Deletion.apply, DeleteLeaves, Entry.content]

theorem abandoned_content (left : Option Bool) : Abandoned ((abandoned left).map Entry.content) := by
  rcases left with _ | _ | _ <;> simp [abandoned, Abandoned, Entry.content]

/-- A delete makes no file. -/
theorem apply_ne_file (deletion : Deletion) {entry : Option Entry} (h : entry ≠ some (.found .file)) :
    deletion.apply entry ≠ some (.found .file) := by
  rcases entry with _ | (_ | _) | _
  case some.found.file => exact absurd rfl h
  all_goals cases deletion <;> simp [Deletion.apply]

theorem directoryExists_content {entry : Option Entry} (h : entry ≠ some (.found .file)) :
    (entry.map Entry.content).isSome = directoryExists entry := by
  rcases entry with _ | (_ | _) | _
  case some.found.file => exact absurd rfl h
  all_goals rfl

theorem contents_update (disk : CString → Option Entry) (path : CString) (left : Option Entry) :
    contents (Function.update disk path left) = Function.update (contents disk) path (left.map Entry.content) :=
  Function.comp_update _ _ _ _

/-! ## The parts of a call -/

section Steps

variable {cacheDir : CString} {r : Request}

/-- A clone that fails ends the call, refused or not. -/
theorem clone_fails {disk : CString → Option Content} {left : Option Content}
    (h : left = disk (temporaryDir cacheDir) ∨ (Vacant (disk (temporaryDir cacheDir)) ∧ Abandoned left)) :
    cacheStep cacheDir ⟨disk, .cloning r⟩ (.clone false left)
      = some (CacheState.finish cacheDir ⟨Function.update disk (temporaryDir cacheDir) left, .started⟩ r) := by
  simp only [cacheStep, Bool.false_eq_true, if_false]
  by_cases hsame : left = disk (temporaryDir cacheDir)
  · rw [if_pos hsame, hsame, Function.update_eq_self]
    rfl
  · rw [if_neg hsame, if_pos (h.resolve_left hsame)]
    rfl

/-- So does a reset. -/
theorem reset_fails {disk : CString → Option Content} {left : Option Content}
    (h : left = disk (temporaryDir cacheDir) ∨ Abandoned left) :
    cacheStep cacheDir ⟨disk, .resetting r⟩ (.reset false left)
      = some (CacheState.finish cacheDir ⟨Function.update disk (temporaryDir cacheDir) left, .started⟩ r) := by
  simp only [cacheStep, Bool.false_eq_true, if_false, if_pos h]
  rfl

/-- Where clone, lookup and reset leave the cache. -/
def afterReset (cacheDir : CString) (r : Request) (disk : CString → Option Content) (out : Bool × Option Entry) :
    CacheState :=
  let after := Function.update disk (temporaryDir cacheDir) (out.2.map Entry.content)
  if out.1 then ⟨after, .deletingTarget r⟩ else CacheState.finish cacheDir ⟨after, .started⟩ r

variable (cacheDir r) in
/-- **Clone, lookup and reset** are up to three steps of the cache. -/
theorem cloneAndReset_run (run : CloneRun) {disk : CString → Option Content} {entry : Option Entry}
    (hdisk : disk (temporaryDir cacheDir) = entry.map Entry.content) :
    ∃ es, Machine.Run (cacheStep cacheDir) ⟨disk, .cloning r⟩ es
      (afterReset cacheDir r disk (cloneAndReset run r entry)) := by
  by_cases hvacant : isVacant entry = true
  case neg =>
    have hout : cloneAndReset run r entry = (false, entry) := by simp [cloneAndReset, gitClone, hvacant]
    rw [hout]
    exact ⟨_, .cons (clone_fails (.inl hdisk.symm)) .start⟩
  have hvacant' : Vacant (disk (temporaryDir cacheDir)) := by rwa [hdisk, ← isVacant_iff]
  cases hclone : run.clone with
  | refused =>
      have hout : cloneAndReset run r entry = (false, entry) := by simp [cloneAndReset, gitClone, hvacant, hclone]
      rw [hout]
      exact ⟨_, .cons (clone_fails (.inl hdisk.symm)) .start⟩
  | abandons left =>
      have hout : cloneAndReset run r entry = (false, abandoned left) := by
        simp [cloneAndReset, gitClone, hvacant, hclone]
      rw [hout]
      exact ⟨_, .cons (clone_fails (.inr ⟨hvacant', abandoned_content left⟩)) .start⟩
  | succeeds =>
      have hcloned : cacheStep cacheDir ⟨disk, .cloning r⟩ (.clone true none) = some
          ⟨Function.update disk (temporaryDir cacheDir) (some (.clone r.organization r.repo)), .lookingUp r⟩ :=
        if_pos hvacant'
      have hin : Function.update disk (temporaryDir cacheDir) (some (.clone r.organization r.repo))
          (temporaryDir cacheDir) = some (.clone r.organization r.repo) := Function.update_self _ _ _
      by_cases hlookup : run.lookup = true
      case neg =>
        have hout : cloneAndReset run r entry = (false, some (.made (.clone r.organization r.repo))) := by
          simp [cloneAndReset, gitClone, hvacant, hclone, hlookup]
        rw [hout]
        exact ⟨_, .cons hcloned (.cons (e := .lookup false) rfl .start)⟩
      have hfails : ∀ left, left = some (.clone r.organization r.repo) ∨ Abandoned left →
          cacheStep cacheDir ⟨Function.update disk (temporaryDir cacheDir) (some (.clone r.organization r.repo)),
              .resetting r⟩ (.reset false left)
            = some (CacheState.finish cacheDir ⟨Function.update disk (temporaryDir cacheDir) left, .started⟩ r) := by
        intro left h
        rw [reset_fails (by rwa [hin]), Function.update_idem]
      cases hreset : run.reset with
      | succeeds =>
          have hout : cloneAndReset run r entry = (true, some (.made (.checkout r.organization r.repo r.hash))) := by
            simp [cloneAndReset, gitClone, gitReset, resetTo, hvacant, hclone, hlookup, hreset]
          rw [hout]
          refine ⟨_, .cons hcloned (.cons (e := .lookup true) rfl (.cons (e := .reset true none) ?_ .start))⟩
          simp only [cacheStep, CacheState.leave, if_true, hin, resetTo, afterReset, Function.update_idem]
          rfl
      | refused =>
          have hout : cloneAndReset run r entry = (false, some (.made (.clone r.organization r.repo))) := by
            simp [cloneAndReset, gitClone, gitReset, hvacant, hclone, hlookup, hreset]
          rw [hout]
          exact ⟨_, .cons hcloned (.cons (e := .lookup true) rfl (.cons (hfails _ (.inl rfl)) .start))⟩
      | abandons left =>
          have hout : cloneAndReset run r entry = (false, abandoned left) := by
            simp [cloneAndReset, gitClone, gitReset, hvacant, hclone, hlookup, hreset]
          rw [hout]
          exact ⟨_, .cons hcloned (.cons (e := .lookup true) rfl
            (.cons (hfails _ (.inr (abandoned_content left))) .start))⟩

/-- A call that ends says whether there is a directory at its target, if that is no file. -/
theorem finish_eq {disk : CString → Option Entry} (h : disk (r.dir cacheDir) ≠ some (.found .file))
    (p : CachePhase) :
    CacheState.finish cacheDir ⟨contents disk, p⟩ r
      = ⟨contents disk, .returned r (directoryExists (disk (r.dir cacheDir)))⟩ := by
  rw [← directoryExists_content h]
  rfl

/-- The rename is a step; where it does nothing, the cache takes it for a failure. -/
theorem rename_step (succeeds : Bool) {disk : CString → Option Entry} (hvalid : hashIsValid r.hash)
    (hfile : disk (r.dir cacheDir) ≠ some (.found .file))
    (hthere : directoryExists (disk (temporaryDir cacheDir)) = true) :
    cacheStep cacheDir ⟨contents disk, .publishing r⟩ (.rename (succeeds && isVacant (disk (r.dir cacheDir))))
      = some ⟨contents (renameDirectory succeeds (r.dir cacheDir) (temporaryDir cacheDir) disk),
          .returned r (directoryExists
            (renameDirectory succeeds (r.dir cacheDir) (temporaryDir cacheDir) disk (r.dir cacheDir)))⟩ := by
  have hne : r.dir cacheDir ≠ temporaryDir cacheDir := checkoutDir_ne_temporaryDir r.repo hvalid
  by_cases hrename : (succeeds && isVacant (disk (r.dir cacheDir))) = true
  · have hvacant : Vacant (contents disk (r.dir cacheDir)) :=
      (isVacant_iff _).mp (Bool.and_eq_true_iff.mp hrename).2
    have hrenamed : renameDirectory succeeds (r.dir cacheDir) (temporaryDir cacheDir) disk = Function.update
        (Function.update disk (r.dir cacheDir) (disk (temporaryDir cacheDir))) (temporaryDir cacheDir) none := by
      simp only [renameDirectory, hrename, hthere, bne_iff_ne.mpr hne, Bool.and_self, if_true]
    have hmoved : renameDirectory succeeds (r.dir cacheDir) (temporaryDir cacheDir) disk (r.dir cacheDir)
        ≠ some (.found .file) := by
      rw [hrenamed, Function.update_of_ne hne, Function.update_self]
      intro hfile'
      rw [hfile'] at hthere
      cases hthere
    rw [hrename, ← finish_eq hmoved .started, hrenamed, contents_update, contents_update]
    exact if_pos hvacant
  · have hstays : renameDirectory succeeds (r.dir cacheDir) (temporaryDir cacheDir) disk = disk := by
      simp only [Bool.not_eq_true] at hrename
      simp only [renameDirectory, hrename, Bool.false_and, Bool.false_eq_true, if_false]
    rw [Bool.not_eq_true _ |>.mp hrename, hstays, ← finish_eq hfile (.publishing r)]
    rfl

/-- **The target is emptied and takes the checkout**, in two steps. -/
theorem publish_run (run : CloneRun) (disk : CString → Option Entry) (hvalid : hashIsValid r.hash)
    (hfile : disk (r.dir cacheDir) ≠ some (.found .file))
    (hthere : directoryExists (disk (temporaryDir cacheDir)) = true) :
    ∃ es, Machine.Run (cacheStep cacheDir) ⟨contents disk, .deletingTarget r⟩ es
      (let after := renameDirectory run.rename (r.dir cacheDir) (temporaryDir cacheDir)
        (Function.update disk (r.dir cacheDir) (run.deleteTarget.apply (disk (r.dir cacheDir))))
      ⟨contents after, .returned r (directoryExists (after (r.dir cacheDir)))⟩) := by
  have hne : r.dir cacheDir ≠ temporaryDir cacheDir := checkoutDir_ne_temporaryDir r.repo hvalid
  have hdeleted : cacheStep cacheDir ⟨contents disk, .deletingTarget r⟩
      (.deleteTarget ((run.deleteTarget.apply (disk (r.dir cacheDir))).map Entry.content))
      = some ⟨contents (Function.update disk (r.dir cacheDir) (run.deleteTarget.apply (disk (r.dir cacheDir)))),
        .publishing r⟩ := by
    rw [contents_update]
    exact if_pos (deleteLeaves_apply _ _)
  refine ⟨_, .cons hdeleted (.cons (rename_step run.rename hvalid ?_ ?_) .start)⟩
  · rw [Function.update_self]
    exact apply_ne_file _ hfile
  · rwa [Function.update_of_ne hne.symm]

end Steps

/-! ## The call -/

section Call

variable {cacheDir : CString} {r : Request} {before : CString → Option Found}

/-- **A call of `clone_repository` is a run of the cache**, from where it begins to where it returns, with the same
    directories and the same answer; its target is no file. -/
theorem cloneRepository_run (run : CloneRun) (hvalid : hashIsValid r.hash) (hurl : (cloneUrl r).length < maxUrlLen)
    (hfile : before (r.dir cacheDir) ≠ some .file) :
    ∃ es success disk,
      cloneRepository run (temporaryDir cacheDir) (r.dir cacheDir) r before = .ok (success, disk) ∧
      Machine.Run (cacheStep cacheDir)
        ⟨contents fun path => (before path).map .found, .deletingTemporary r⟩ es
        ⟨contents disk, .returned r success⟩ := by
  have hne : r.dir cacheDir ≠ temporaryDir cacheDir := checkoutDir_ne_temporaryDir r.repo hvalid
  have hbegin : beginClone r = .ok (cloneUrl r) := beginClone_ok hvalid hurl
  have hfound : (before (r.dir cacheDir)).map Entry.found ≠ some (.found .file) := by
    intro hsome
    obtain ⟨found, hbefore, hisFile⟩ := Option.map_eq_some_iff.mp hsome
    exact hfile (hbefore.trans (congrArg some (Entry.found.inj hisFile)))
  -- the temporary directory is emptied, or not
  have hcleared : cacheStep cacheDir ⟨contents fun path => (before path).map .found, .deletingTemporary r⟩
      (.deleteTemporary ((run.cleared (before (temporaryDir cacheDir))).map Entry.content))
      = some ⟨contents (Function.update (fun path => (before path).map .found) (temporaryDir cacheDir)
          (run.cleared (before (temporaryDir cacheDir)))), .cloning r⟩ := by
    rw [contents_update]
    exact if_pos (deleteLeaves_apply _ _)
  obtain ⟨es, hreset⟩ := cloneAndReset_run cacheDir r run
    (show contents (Function.update (fun path => (before path).map .found) (temporaryDir cacheDir)
        (run.cleared (before (temporaryDir cacheDir)))) (temporaryDir cacheDir) = _ by
      rw [contents, Function.update_self])
  rw [afterReset, ← contents_update, Function.update_idem] at hreset
  by_cases hchecks : run.ChecksOut (before (temporaryDir cacheDir))
  · obtain ⟨disk, hrun, hdisk⟩ := cloneRepository_checksOut (r.dir cacheDir) hbegin hchecks
    rw [cloneAndReset_checksOut hchecks, if_pos rfl] at hreset
    obtain ⟨es', hpublished⟩ := publish_run (r := r) run
      (Function.update (fun path => (before path).map .found) (temporaryDir cacheDir) (some (.made r.checkout))) hvalid
      (by rwa [Function.update_of_ne hne]) (by rw [Function.update_self]; rfl)
    rw [← hdisk] at hpublished
    exact ⟨_, _, disk, hrun, .cons hcleared (hreset.append hpublished)⟩
  · obtain ⟨disk, hrun, hdisk⟩ := cloneRepository_fails (r.dir cacheDir) hbegin hchecks
    obtain ⟨hdone, -, -⟩ := cloneAndReset_fails (r := r) hchecks
    simp only [hdone, Bool.false_eq_true, if_false] at hreset
    rw [← hdisk, finish_eq (by rwa [hdisk, Function.update_of_ne hne])] at hreset
    exact ⟨_, _, disk, hrun, .cons hcleared hreset⟩

/-- Where the cache makes the call, there is no target, and so the answer is right. -/
theorem truthful_of_free (run : CloneRun) (hvalid : hashIsValid r.hash) (hnone : before (r.dir cacheDir) = none) :
    run.Truthful (temporaryDir cacheDir) (r.dir cacheDir) before := by
  have hne : r.dir cacheDir ≠ temporaryDir cacheDir := checkoutDir_ne_temporaryDir r.repo hvalid
  unfold CloneRun.Truthful
  rw [if_neg hne, if_neg hne, hnone]
  split
  · right
    cases hdeletion : run.deleteTarget <;> simp [CloneRun.replaced, Deletion.apply, directoryExists, hdeletion]
  · rfl

/-- **In the cache a call does as the cache's steps do, and its answer is right**: whatever has happened to the cache
    before, and however the call fares, it takes the cache from where it is called to where it returns, and if it says
    that it succeeded, the directory is the checkout that was asked for. -/
theorem cached_clone {es : List CacheEvent} (run : CloneRun) (hurl : (cloneUrl r).length < maxUrlLen)
    (hreached : Machine.Run (cacheStep cacheDir) CacheState.start es
      ⟨contents fun path => (before path).map .found, .deletingTemporary r⟩) :
    ∃ es' success disk,
      cloneRepository run (temporaryDir cacheDir) (r.dir cacheDir) r before = .ok (success, disk) ∧
      Machine.Run (cacheStep cacheDir) CacheState.start (es ++ es') ⟨contents disk, .returned r success⟩ ∧
      (success = true → disk (r.dir cacheDir) = some (.made r.checkout)) := by
  obtain ⟨hvalid, -, hfree⟩ := (cacheInv_run hreached).phase
  have hnone : before (r.dir cacheDir) = none := Option.map_eq_none_iff.mp (Option.map_eq_none_iff.mp hfree)
  have hfile : before (r.dir cacheDir) ≠ some .file := by simp [hnone]
  obtain ⟨es', success, disk, hrun, hsteps⟩ := cloneRepository_run run hvalid hurl hfile
  refine ⟨es', success, disk, hrun, hreached.append hsteps, ?_⟩
  rintro rfl
  exact (cloneRepository_truthful (beginClone_ok hvalid hurl)).mpr (truthful_of_free run hvalid hnone) disk hrun

end Call

/-- Every step succeeds. -/
def smoothClone : CloneRun := ⟨.complete, .succeeds, true, .succeeds, .complete, true⟩

/-- What a call that is killed behind its clone leaves. -/
def killedDisk (path : CString) : Option Found :=
  if path = temporaryDir (CString.lit "/cache") then
    some (.directory (.clone (CString.lit "course") (CString.lit "hw1_amy")))
  else none

/-- The same call again. -/
theorem cached_clone_killedOnce : ∃ es' success disk,
    cloneRepository smoothClone (temporaryDir (CString.lit "/cache")) (requestA.dir (CString.lit "/cache")) requestA
        killedDisk = .ok (success, disk) ∧
      Machine.Run (cacheStep (CString.lit "/cache")) CacheState.start
        ([.call requestA, .deleteTemporary none, .clone true none, .kill, .call requestA] ++ es')
        ⟨contents disk, .returned requestA success⟩ ∧
      (success = true → disk (requestA.dir (CString.lit "/cache")) = some (.made requestA.checkout)) := by
  have hdisk : contents (fun path => (killedDisk path).map .found) = Function.update
      (Function.update (fun _ => none) (temporaryDir (CString.lit "/cache")) none)
      (temporaryDir (CString.lit "/cache")) (some (.clone (CString.lit "course") (CString.lit "hw1_amy"))) := by
    funext path
    by_cases hpath : path = temporaryDir (CString.lit "/cache")
    · simp [contents, killedDisk, hpath, Entry.content]
    · simp [contents, killedDisk, hpath]
  refine cached_clone smoothClone (by decide) (Machine.run_iff_foldlM.mpr ?_)
  rw [hdisk]
  rfl

end Hand2
