import Hand2.Grading.ThreadProc
import Hand2.Scores.Alignment

/-!
# `Grading.Completion` — what a score was read after

`grade_homework` from the cached repositories to the scores: the works are filled in, `wait_for_completion` runs
them in its threads, and the rows of the sheet read the exit codes. The array is zero-filled and zero also means
success, so an exit code is worth something only if a thread wrote it. It was, in every order of steps, as soon
as one thread could be started; with none, the first row that has a repository is scored unrun.
-/

namespace Hand2

/-! ## `linux_exec_process` -/

/-- How the system answers the calls of one `linux_exec_process`. -/
structure ExecAnswers where
  stdoutCreated : Bool
  stderrCreated : Bool
  forked : Bool
  /-- `chdir` to a path that is no null pointer. -/
  entered : Bool
  /-- What `sh -c command` exits with, there; nothing if it is killed. -/
  shell : Option CString → Option UInt8
  waited : Bool

/-- How the child ends: `exit(-1)` if it does not get into the directory. -/
def childStatus (command workDir : Option CString) (a : ExecAnswers) : Option UInt8 :=
  if workDir ≠ none ∧ a.entered then a.shell command else some 255

/-- `linux_exec_process`, as far as its exit code. -/
def linuxExecProcess (command workDir : Option CString) (a : ExecAnswers) : Int :=
  if a.stdoutCreated ∧ a.stderrCreated ∧ a.forked ∧ a.waited then
    match childStatus command workDir a with
    | some status => status.toNat
    | none        => -1
  else -1

/-- The command of the work was run, in its directory, and exited with zero. -/
def CommandSucceeded (work : RunWork) (a : ExecAnswers) : Prop :=
  a.forked ∧ nonEmpty work.workDir ≠ none ∧ a.entered ∧ a.shell (nonEmpty work.command) = some 0

/-- Zero is the exit code of a command that succeeded, and of nothing else. -/
theorem succeeded_of_exec {work : RunWork} {a : ExecAnswers}
    (h : linuxExecProcess (nonEmpty work.command) (nonEmpty work.workDir) a = 0) : CommandSucceeded work a := by
  unfold linuxExecProcess at h
  split at h
  · next hcreated =>
      unfold childStatus at h
      split at h
      · next status hstatus =>
          split at hstatus
          · next hdir =>
              have hzero : status = 0 := UInt8.toNat.inj (by exact_mod_cast h)
              exact ⟨hcreated.2.2.1, hdir.1, hdir.2, by rw [hstatus, hzero]⟩
          · injection hstatus with hstatus
            subst hstatus
            exact absurd h (by decide)
      · exact absurd h (by decide)
  · exact absurd h (by decide)

/-! ## `linux_wait_for_completion` -/

/-- The largest size `malloc` can have room for (`PTRDIFF_MAX`). -/
def ptrdiffMax : Int := 9223372036854775807

/-- How the system answers the calls of `linux_wait_for_completion`. -/
structure WaitAnswers (threadCount : Int) where
  mutex : Bool
  /-- The arrays can be allocated, the first of which has an `int` for each thread. -/
  memory : Bool
  memory_le : memory → threadCount * 4 % 18446744073709551616 ≤ ptrdiffMax
  /-- `pthread_create` of each thread. -/
  started : Fin threadCount.toNat → Bool

/-- The threads that were started. -/
abbrev WaitAnswers.Thread {threadCount : Int} (a : WaitAnswers threadCount) : Type := { i // a.started i }

/-- `linux_wait_for_completion`: the steps of the threads it starts and joins, and the works behind it. -/
inductive WaitForCompletion {threadCount : Int} (a : WaitAnswers threadCount) (workCount : Int)
    (works : Int → RunWork) : List (ThreadEvent a.Thread ExecAnswers) → Except Fault (Int → RunWork) → Prop
  | noMutex (hmutex : ¬ a.mutex) : WaitForCompletion a workCount works [] (.ok works)
  | noMemory (hmutex : a.mutex) (hmemory : ¬ a.memory) : WaitForCompletion a workCount works [] (.error .exit)
  | joined {es : List (ThreadEvent a.Thread ExecAnswers)} {s : Threads a.Thread} (hmutex : a.mutex)
      (hmemory : a.memory)
      (hrun : Machine.Run (linuxThreadProc (fun _ => linuxExecProcess) workCount) (Threads.start works) es s)
      (hleft : ∀ t, s.thread t = .left) : WaitForCompletion a workCount works es (.ok s.works)

/-- Some thread runs the works. -/
def WaitAnswers.Runs {threadCount : Int} (a : WaitAnswers threadCount) : Prop :=
  a.mutex ∧ a.memory ∧ ∃ i, a.started i

section Wait

variable {threadCount workCount : Int} {a : WaitAnswers threadCount} {works after : Int → RunWork}
  {es : List (ThreadEvent a.Thread ExecAnswers)}

/-- **With a thread, zero is always written**: a work whose exit code is zero behind the wait was run by a thread,
    and its command succeeded. -/
theorem succeeded_of_runs (hcount : 0 ≤ workCount) (hruns : a.Runs)
    (hwait : WaitForCompletion a workCount works es (.ok after)) {n : Int} (h0 : 0 ≤ n) (hn : n < workCount)
    (hexit : (after n).exitCode = 0) :
    ∃ t result, .finish t n result ∈ es ∧ CommandSucceeded (works n) result := by
  obtain ⟨hmutex, hmemory, i, hi⟩ := hruns
  cases hwait with
  | noMutex hno => exact absurd hmutex hno
  | joined _ _ hrun hleft =>
      have : Nonempty a.Thread := ⟨⟨i, hi⟩⟩
      obtain ⟨t, result, hhistory, hwork⟩ := (threadInv_run hcount hrun).all_done hleft h0 hn
      refine ⟨t, result, ?_, ?_⟩
      · have hmem : ThreadEvent.finish t n result ∈ history n es := by simp [hhistory]
        exact (List.mem_filter.mp hmem).1
      · rw [hwork] at hexit
        exact succeeded_of_exec hexit

/-- **Without one, nothing is run**: there are no steps, and the works are left as they were. -/
theorem unchanged_of_not_runs (hruns : ¬ a.Runs) (hwait : WaitForCompletion a workCount works es (.ok after)) :
    es = [] ∧ after = works := by
  cases hwait with
  | noMutex _ => exact ⟨rfl, rfl⟩
  | joined hmutex hmemory hrun _ =>
      -- a step would be one of some thread
      have hnone : a.Thread → False := fun t => hruns ⟨hmutex, hmemory, t.1, t.2⟩
      cases hrun with
      | start => exact ⟨rfl, rfl⟩
      | @step _ _ _ e _ _ => cases e <;> exact (hnone ‹_›).elim

end Wait

/-! ## From the cached repositories to the scores -/

/-- A repository as `grade_homework` has it before the works are filled in. -/
structure Submission where
  name : CString
  hash : GitCommitHash
  pushTime : Int
  /-- The directory of the checkout, if `cache_repository` succeeded. -/
  cached : Option CString

/-- A work as `clear_memory` leaves it. -/
def RunWork.zero : RunWork := ⟨⟨0, CString.empty⟩, CString.empty⟩

/-- The log of a run: `"%s/%s_%s_stdout.log"` and its like. -/
def logPath (logDir : CString) (r : Submission) (suffix : CString) : CString :=
  logDir ++ CString.lit "/" ++ r.name ++ CString.lit "_" ++ r.hash.trim ++ suffix

/-- The body of the loop that fills in the works: a repository that is not cached is passed over. -/
def prepareWork (command logDir : CString) (r : Submission) : Except Fault RunWork :=
  match r.cached with
  | none => .ok RunWork.zero
  | some dir => do
      let _ ← formatString maxPathLen (dir ++ CString.lit "/test")
      let _ ← formatString maxPathLen (dir ++ CString.lit "/docker")
      let command ← formatString maxPathLen command
      let workDir ← formatString maxPathLen dir
      let _ ← formatString maxPathLen (logPath logDir r (CString.lit "_stdout.log"))
      let _ ← formatString maxPathLen (logPath logDir r (CString.lit "_stderr.log"))
      .ok ⟨⟨0, workDir⟩, command⟩

/-- A list of works as the array the threads see. -/
def workArray (works : List RunWork) (n : Int) : RunWork := works.getD n.toNat RunWork.zero

/-- The works of an array, as far as they are read after the run. -/
def readWorks (after : Int → RunWork) (count : Nat) : List Work :=
  (List.range count).map (fun i : Nat => (after i).toWork)

theorem readWorks_getD (after : Int → RunWork) {count i : Nat} (hi : i < count) :
    (readWorks after count).getD i ⟨0, CString.empty⟩ = (after i).toWork := by
  simp [readWorks, List.getD, hi]

/-- Every work starts with a zero for its exit code. -/
theorem prepareWork_exitCode {command logDir : CString} {r : Submission} {work : RunWork}
    (h : prepareWork command logDir r = .ok work) : work.exitCode = 0 := by
  unfold prepareWork at h
  split at h
  · injection h with h
    subst h
    rfl
  · obtain ⟨_, _, h⟩ := Loops.bind_eq_ok h
    obtain ⟨_, _, h⟩ := Loops.bind_eq_ok h
    obtain ⟨_, _, h⟩ := Loops.bind_eq_ok h
    obtain ⟨_, _, h⟩ := Loops.bind_eq_ok h
    obtain ⟨_, _, h⟩ := Loops.bind_eq_ok h
    obtain ⟨_, _, h⟩ := Loops.bind_eq_ok h
    injection h with h
    subst h
    rfl

/-- Before the wait, every exit code reads as success. -/
theorem prepared_exitCode {command logDir : CString} {rs : List Submission} {works : List RunWork}
    (hprepare : rs.mapM (prepareWork command logDir) = .ok works) (n : Int) : (workArray works n).exitCode = 0 := by
  unfold workArray
  rw [List.getD_eq_getElem?_getD]
  cases hget : works[n.toNat]? with
  | none => rfl
  | some work =>
      have hall := Loops.forall₂_of_mapM_ok hprepare
      obtain ⟨hlt, hwork⟩ := List.getElem?_eq_some_iff.mp hget
      have hone := hall.get (hall.length_eq ▸ hlt) hlt
      rw [List.get_eq_getElem, List.get_eq_getElem, hwork] at hone
      exact prepareWork_exitCode hone

/-! ## The rows -/

section Rows

variable {σ α : Type} (platform : Platform σ) (double : CDouble α) (hw : Homework) (onlyRepo : Bool)
  (rs : List Submission) (sheet : Sheet)

/-- A row up to the search for its repository: the student's id, and the index that is found. -/
def rowSubmission (studentX idX y : Nat) : Except Fault (CString × Option Nat) := do
  let student ← getValue sheet studentX y
  let studentId ← getValue sheet idX y
  let reqName ← formatString 256 (repositoryName hw.title student)
  .ok (studentId, findIndexCaseInsensitive (rs.map Submission.name) reqName)

/-- The loop over the rows of `gradeHomework`. -/
def gradeRows (works : List Work) (studentX idX : Nat) (s : Graded σ) (y : Nat) : Except Fault (Graded σ) :=
  gradeRow platform double hw.title hw.deadline hw.feedbackReportDir hw.scoreRelativePath hw.reportTemplate onlyRepo
    (rs.map Submission.name) (rs.map Submission.pushTime) works sheet studentX idX s y

/-- The two paths of a student and a work fit their buffers. -/
def RowPathsFit (studentId workDir : CString) : Prop :=
  (reportPath hw.feedbackReportDir studentId).length < maxPathLen ∧
    (scorePath workDir hw.scoreRelativePath).length < maxPathLen

/-- Row `y` reads the score in the directory of repository `index` and generates its report: the loop gets to the
    row, the exit code of the work is zero, and the row gets past its two paths. -/
def ReadsScore (works : List Work) (files : σ) (y index : Nat) : Prop :=
  ∃ studentX idX s studentId,
    findLabel sheet hw.studentLabel = some studentX ∧ findLabel sheet hw.idLabel = some idX ∧ y < sheet.height ∧
    (List.range y).foldlM (gradeRows platform double hw onlyRepo rs sheet works studentX idX) (Graded.start files)
      = .ok s ∧
    rowSubmission hw rs sheet studentX idX y = .ok (studentId, some index) ∧
    (works.getD index ⟨0, CString.empty⟩).exitCode = 0 ∧
    RowPathsFit hw studentId (works.getD index ⟨0, CString.empty⟩).workDir

/-- The first row that has a repository gets past its paths, as the works were prepared. -/
def FirstRowFits (works : List RunWork) : Prop :=
  ∃ studentX idX y studentId index,
    findLabel sheet hw.studentLabel = some studentX ∧ findLabel sheet hw.idLabel = some idX ∧ y < sheet.height ∧
    (∀ y' < y, ∃ id, rowSubmission hw rs sheet studentX idX y' = .ok (id, none)) ∧
    rowSubmission hw rs sheet studentX idX y = .ok (studentId, some index) ∧
    RowPathsFit hw studentId (workArray works index).workDir

end Rows

section RowLemmas

variable {σ α : Type} {platform : Platform σ} {double : CDouble α} {hw : Homework} {onlyRepo : Bool}
  {rs : List Submission} {sheet : Sheet} {works : List Work} {studentX idX y : Nat}

/-- A row without a repository writes at most a line. -/
theorem gradeRows_none {id : CString} (h : rowSubmission hw rs sheet studentX idX y = .ok (id, none))
    (s : Graded σ) :
    ∃ s', gradeRows platform double hw onlyRepo rs sheet works studentX idX s y = .ok s' := by
  unfold rowSubmission at h
  obtain ⟨student, hstudent, h⟩ := Loops.bind_eq_ok h
  obtain ⟨studentId, hid, h⟩ := Loops.bind_eq_ok h
  obtain ⟨reqName, hname, h⟩ := Loops.bind_eq_ok h
  injection h with h
  have hfind : findIndexCaseInsensitive (rs.map Submission.name) reqName = none := congrArg Prod.snd h
  unfold gradeRows gradeRow
  rw [hstudent, hid]
  dsimp only [Bind.bind, Except.bind]
  rw [hname]
  dsimp only
  rw [hfind]
  exact ⟨_, rfl⟩

/-- A row the loop gets past: its names fit, and if it has a repository whose work succeeded, so do its paths. -/
theorem gradeRows_ok {s s' : Graded σ}
    (h : gradeRows platform double hw onlyRepo rs sheet works studentX idX s y = .ok s') :
    ∃ id found, rowSubmission hw rs sheet studentX idX y = .ok (id, found) ∧
      ∀ index, found = some index → (works.getD index ⟨0, CString.empty⟩).exitCode = 0 →
        RowPathsFit hw id (works.getD index ⟨0, CString.empty⟩).workDir := by
  unfold gradeRows gradeRow at h
  obtain ⟨student, hstudent, h⟩ := Loops.bind_eq_ok h
  obtain ⟨id, hid, h⟩ := Loops.bind_eq_ok h
  obtain ⟨reqName, hname, h⟩ := Loops.bind_eq_ok h
  refine ⟨id, findIndexCaseInsensitive (rs.map Submission.name) reqName, ?_, ?_⟩
  · unfold rowSubmission
    rw [hstudent, hid]
    dsimp only [Bind.bind, Except.bind]
    rw [hname]
  · intro index hfind hexit
    rw [hfind] at h
    obtain ⟨graded, hgraded, -⟩ := Loops.bind_eq_ok h
    have hwork := gradeWork_of_gradeSubmission double hw.deadline _ hexit hgraded
    obtain ⟨hreport, hscore, -⟩ := gradeWork_ok double hwork
    exact ⟨hreport, hscore⟩

/-- Every row in front of one the loop gets to was got past. -/
theorem row_of_loop {s s' : Graded σ}
    (h : (List.range y).foldlM (gradeRows platform double hw onlyRepo rs sheet works studentX idX) s = .ok s')
    {y' : Nat} (hy : y' < y) :
    ∃ id found, rowSubmission hw rs sheet studentX idX y' = .ok (id, found) ∧
      ∀ index, found = some index → (works.getD index ⟨0, CString.empty⟩).exitCode = 0 →
        RowPathsFit hw id (works.getD index ⟨0, CString.empty⟩).workDir := by
  obtain ⟨c, c', hround⟩ := Loops.foldlM_round_ok (List.mem_range.mpr hy) h
  exact gradeRows_ok hround

/-- The index a row finds is one of the listing. -/
theorem rowSubmission_index_lt {id : CString} {index : Nat}
    (h : rowSubmission hw rs sheet studentX idX y = .ok (id, some index)) : index < rs.length := by
  unfold rowSubmission at h
  obtain ⟨_, _, h⟩ := Loops.bind_eq_ok h
  obtain ⟨_, _, h⟩ := Loops.bind_eq_ok h
  obtain ⟨reqName, _, h⟩ := Loops.bind_eq_ok h
  injection h with h
  have hfind : findIndexCaseInsensitive (rs.map Submission.name) reqName = some index := congrArg Prod.snd h
  obtain ⟨hlt, -⟩ := List.findIdx?_eq_some_iff_getElem.mp hfind
  simpa using hlt

variable (platform double hw onlyRepo rs sheet)

/-- **Unrun works are scored from the first row that has one on**: some row reads a score if and only if that one
    gets past its paths. -/
theorem readsScore_of_unrun {prepared : List RunWork} (hzero : ∀ n, (workArray prepared n).exitCode = 0)
    (hworks : ∀ index < rs.length, works.getD index ⟨0, CString.empty⟩ = (workArray prepared index).toWork)
    (files : σ) :
    (∃ y index, ReadsScore platform double hw onlyRepo rs sheet works files y index)
      ↔ FirstRowFits hw rs sheet prepared := by
  constructor
  · rintro ⟨y, index, studentX, idX, s, id, hstudent, hid, hy, hloop, hrow, hexit, hfit⟩
    have hlt := rowSubmission_index_lt hrow
    rw [hworks index hlt] at hfit
    -- the rows before were got past: either one of them had a repository, or none did
    by_cases hearlier : ∃ y' < y, ∃ id' index', rowSubmission hw rs sheet studentX idX y' = .ok (id', some index')
    · classical
      obtain ⟨hlty, id', index', hrow'⟩ := Nat.find_spec hearlier
      refine ⟨studentX, idX, Nat.find hearlier, id', index', hstudent, hid, by omega, ?_, hrow', ?_⟩
      · intro y'' hy''
        obtain ⟨id'', found, hfound, -⟩ := row_of_loop hloop (by omega : y'' < y)
        cases found with
        | none => exact ⟨id'', hfound⟩
        | some index'' => exact absurd ⟨by omega, id'', index'', hfound⟩ (Nat.find_min hearlier hy'')
      · obtain ⟨id'', found, hfound, hfits⟩ := row_of_loop hloop hlty
        have heq := Except.ok.inj (hfound.symm.trans hrow')
        injection heq with heqid heqfound
        subst heqid heqfound
        have hlt' := rowSubmission_index_lt hrow'
        rw [← hworks index' hlt']
        apply hfits index' rfl
        rw [hworks index' hlt']
        exact hzero index'
    · refine ⟨studentX, idX, y, id, index, hstudent, hid, hy, ?_, hrow, hfit⟩
      intro y' hy'
      obtain ⟨id', found, hfound, -⟩ := row_of_loop hloop hy'
      cases found with
      | none => exact ⟨id', hfound⟩
      | some index' => exact absurd ⟨y', hy', id', index', hfound⟩ hearlier
  · rintro ⟨studentX, idX, y, id, index, hstudent, hid, hy, hbefore, hrow, hfit⟩
    have hlt := rowSubmission_index_lt hrow
    -- the rows before have no repository, so the loop gets past them
    obtain ⟨s, hloop, -⟩ := Loops.foldlM_range_invariant (fun _ _ => True)
      (f := gradeRows platform double hw onlyRepo rs sheet works studentX idX) (n := y)
      (a := Graded.start files) trivial
      (by
        intro y' hy' s' _
        obtain ⟨id', hnone⟩ := hbefore y' hy'
        obtain ⟨s'', hs''⟩ := gradeRows_none hnone s'
        exact ⟨s'', hs'', trivial⟩)
    refine ⟨y, index, studentX, idX, s, id, hstudent, hid, hy, hloop, hrow, ?_, ?_⟩
    · rw [hworks index hlt]
      exact hzero index
    · rw [hworks index hlt]
      exact hfit

end RowLemmas

/-! ## Scores of works that were run -/

section Earned

variable {σ α : Type} (platform : Platform σ) (double : CDouble α) (hw : Homework) (onlyRepo : Bool)
  (rs : List Submission) (sheet : Sheet) {threadCount : Int} {a : WaitAnswers threadCount}

/-- Every row that reads a score and generates a report is one whose work was run by this wait, with a command that
    exited with zero. -/
def EarnedScores (files : σ) (works : List RunWork) (es : List (ThreadEvent a.Thread ExecAnswers))
    (after : Int → RunWork) : Prop :=
  ∀ y index, ReadsScore platform double hw onlyRepo rs sheet (readWorks after rs.length) files y index →
    ∃ t result, .finish t index result ∈ es ∧ CommandSucceeded (workArray works index) result

variable {works : List RunWork} {es : List (ThreadEvent a.Thread ExecAnswers)} {after : Int → RunWork}

/-- With a thread, every score is earned. -/
theorem earnedScores_of_runs (hruns : a.Runs)
    (hwait : WaitForCompletion a rs.length (workArray works) es (.ok after)) (files : σ) :
    EarnedScores platform double hw onlyRepo rs sheet files works es after := by
  rintro y index ⟨studentX, idX, s, id, -, -, -, -, hrow, hexit, -⟩
  have hlt := rowSubmission_index_lt hrow
  rw [readWorks_getD after hlt] at hexit
  exact succeeded_of_runs (Int.natCast_nonneg _) hruns hwait (Int.natCast_nonneg _) (by exact_mod_cast hlt) hexit

/-- With none, no score is. -/
theorem earnedScores_of_not_runs {command logDir : CString}
    (hprepare : rs.mapM (prepareWork command logDir) = .ok works)
    (hruns : ¬ a.Runs) (hwait : WaitForCompletion a rs.length (workArray works) es (.ok after)) (files : σ) :
    EarnedScores platform double hw onlyRepo rs sheet files works es after ↔ ¬ FirstRowFits hw rs sheet works := by
  obtain ⟨rfl, rfl⟩ := unchanged_of_not_runs hruns hwait
  have hreads := readsScore_of_unrun platform double hw onlyRepo rs sheet (prepared_exitCode hprepare)
    (fun index hlt => readWorks_getD (workArray works) hlt) files
  rw [← hreads]
  constructor
  · rintro hearned ⟨y, index, hread⟩
    obtain ⟨t, result, hmem, -⟩ := hearned y index hread
    exact List.not_mem_nil hmem
  · intro hnone y index hread
    exact absurd ⟨y, index, hread⟩ hnone

/-- **When a score only comes from a command that was run**: in every order of the threads' steps if one could be
    started, and otherwise only if the program ends for want of memory or no row gets as far as a score. -/
theorem score_only_after_run_iff {command logDir : CString} (files : σ)
    (hprepare : rs.mapM (prepareWork command logDir) = .ok works) {out : Except Fault (Int → RunWork)}
    (hwait : WaitForCompletion a rs.length (workArray works) es out) :
    (∀ after, out = .ok after → EarnedScores platform double hw onlyRepo rs sheet files works es after)
      ↔ a.Runs ∨ (a.mutex ∧ ¬ a.memory) ∨ ¬ FirstRowFits hw rs sheet works := by
  by_cases hruns : a.Runs
  · refine iff_of_true ?_ (.inl hruns)
    rintro after rfl
    exact earnedScores_of_runs platform double hw onlyRepo rs sheet hruns hwait files
  · have hnone : ∀ after, out = .ok after →
        (EarnedScores platform double hw onlyRepo rs sheet files works es after ↔
          ¬ FirstRowFits hw rs sheet works) := by
      rintro after rfl
      exact earnedScores_of_not_runs platform double hw onlyRepo rs sheet hprepare hruns hwait files
    constructor
    · intro hearned
      cases hwait with
      | noMutex _               => exact .inr (.inr ((hnone _ rfl).mp (hearned _ rfl)))
      | noMemory hmutex hmemory => exact .inr (.inl ⟨hmutex, hmemory⟩)
      | joined _ _ _ _          => exact .inr (.inr ((hnone _ rfl).mp (hearned _ rfl)))
    · rintro (hruns' | ⟨hmutex, hmemory⟩ | hfit) after rfl
      · exact absurd hruns' hruns
      · cases hwait with
        | noMutex hno            => exact absurd hmutex hno
        | joined _ hmemory' _ _  => exact absurd hmemory' hmemory
      · exact (hnone after rfl).mpr hfit

end Earned

/-! ## One student, with a thread and without -/

/-- The checkout of a student. -/
def bobSubmission : Submission :=
  ⟨CString.lit "hw1-Bob", GitCommitHash.zero, 1003600, some (CString.lit "/cache/hw1-bob")⟩

/-- Its work, as it is prepared. -/
def bobWork : RunWork := ⟨⟨0, CString.lit "/cache/hw1-bob"⟩, CString.lit "make"⟩

theorem bobWork_prepared :
    [bobSubmission].mapM (prepareWork (CString.lit "make") (CString.lit "/log")) = .ok [bobWork] := rfl

/-- Every call succeeds, for a number of threads. -/
def allStarted (threadCount : Int) (hcount : threadCount * 4 % 18446744073709551616 ≤ ptrdiffMax) :
    WaitAnswers threadCount :=
  ⟨true, true, fun _ => hcount, fun _ => true⟩

/-- One thread, and a command that exits with zero. -/
def oneThread : WaitAnswers 1 := allStarted 1 (by decide)

def onlyThread : oneThread.Thread := ⟨⟨0, by decide⟩, rfl⟩

def makeAnswers : ExecAnswers := ⟨true, true, true, true, fun _ => some 0, true⟩

def oneRun : List (ThreadEvent oneThread.Thread ExecAnswers) :=
  [.read onlyThread, .claim onlyThread 0, .finish onlyThread 0 makeAnswers, .read onlyThread]

theorem oneRun_waits : ∃ after, WaitForCompletion oneThread 1 (workArray [bobWork]) oneRun (.ok after) := by
  have hsome : (oneRun.foldlM (linuxThreadProc (fun _ => linuxExecProcess) 1)
      (Threads.start (workArray [bobWork]))).isSome := rfl
  refine ⟨_, .joined rfl rfl (Machine.run_iff_foldlM.mpr (Option.some_get hsome).symm) ?_⟩
  rintro ⟨⟨i, hi⟩, hstarted⟩
  obtain rfl : i = 0 := by
    change i < 1 at hi
    omega
  rfl

theorem score_only_after_run_oneRun : ∃ after,
    EarnedScores Homework.listPlatform Homework.wholeScores (Homework.tenPercent "Hi") false [bobSubmission]
      Homework.classSheet [] [bobWork] oneRun after := by
  obtain ⟨after, hwait⟩ := oneRun_waits
  exact ⟨after, (score_only_after_run_iff Homework.listPlatform Homework.wholeScores (Homework.tenPercent "Hi") false
    [bobSubmission] Homework.classSheet [] bobWork_prepared hwait).mpr
      (.inl ⟨rfl, rfl, ⟨0, by decide⟩, rfl⟩) after rfl⟩

/-- **With `grade_thread = 0` a score is read that no command was run for.** -/
theorem score_only_after_run_counterexample :
    [bobSubmission].mapM (prepareWork (CString.lit "make") (CString.lit "/log")) = .ok [bobWork] ∧
    WaitForCompletion (allStarted 0 (by decide)) 1 (workArray [bobWork]) [] (.ok (workArray [bobWork])) ∧
    ¬ EarnedScores Homework.listPlatform Homework.wholeScores (Homework.tenPercent "Hi") false [bobSubmission]
        Homework.classSheet [] [bobWork] ([] : List (ThreadEvent (allStarted 0 (by decide)).Thread ExecAnswers))
        (workArray [bobWork]) := by
  refine ⟨bobWork_prepared, .joined rfl rfl .start ?_, ?_⟩
  · rintro ⟨⟨i, hi⟩, -⟩
    exact absurd hi (Nat.not_lt_zero i)
  · intro hearned
    have hfirst : FirstRowFits (Homework.tenPercent "Hi") [bobSubmission] Homework.classSheet [bobWork] := by
      refine ⟨0, 1, 1, CString.lit "2", 0, by decide, by decide, by decide, ?_, by decide, by decide, by decide⟩
      intro y hy
      obtain rfl : y = 0 := by omega
      exact ⟨CString.lit "1", by decide⟩
    obtain ⟨y, index, hread⟩ := (readsScore_of_unrun Homework.listPlatform Homework.wholeScores
      (Homework.tenPercent "Hi") false [bobSubmission] Homework.classSheet (prepared_exitCode bobWork_prepared)
      (fun index hlt => readWorks_getD (workArray [bobWork]) hlt) []).mpr hfirst
    obtain ⟨t, result, hmem, -⟩ := hearned y index hread
    exact List.not_mem_nil hmem

end Hand2
