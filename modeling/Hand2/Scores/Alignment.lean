import Hand2.Library.Lookup
import Hand2.Library.TextFile
import Hand2.Scores.Grade
import Mathlib.Data.List.Pairwise

/-!
# `Scores.Alignment` — the files follow the sheet, not the listing

The arrays of `collect_homework` and `grade_homework` are the columns of a list of repositories. Searching a
name by its index and reading the other arrays there is searching the list for its record (`Lookup`), and
with names that differ the order of the list cannot matter. So both files have one line for each row of the
sheet, unless a report or a score cannot be made: `row_alignment_iff`.
-/

namespace Hand2

/-- A repository with what the parallel arrays hold for it. -/
structure Repository where
  name : CString
  branch : CString
  hash : GitCommitHash
  pushTime : Int
  work : Work

/-- The arguments both commands take from the configuration, and where the reports go. -/
structure Homework where
  title : CString
  deadline : Int
  penaltyPerDay : Int
  isWeekendsOneDay : Int
  studentLabel : CString
  idLabel : CString
  feedbackReportDir : CString
  scoreRelativePath : CString
  reportTemplate : List UInt8

namespace Homework

section Commands

variable {σ α : Type} (platform : Platform σ) (double : CDouble α) (hw : Homework) (rs : List Repository)
  (sheet : Sheet)

/-- `collect_homework` without `--only-repo`. -/
def collect : Except Fault Collected :=
  collectHomework hw.title hw.deadline hw.penaltyPerDay hw.isWeekendsOneDay false (rs.map Repository.name)
    (rs.map Repository.hash) (rs.map Repository.pushTime) sheet hw.studentLabel

/-- `grade_homework` without `--only-repo`. -/
def grade (files : σ) : Except Fault (Graded σ) :=
  gradeHomework platform double hw.title hw.deadline hw.feedbackReportDir hw.scoreRelativePath hw.reportTemplate
    false (rs.map Repository.name) (rs.map Repository.pushTime) (rs.map Repository.work) sheet hw.studentLabel
    hw.idLabel files

end Commands

/-! ## What the files should hold -/

section Meaning

variable {σ α : Type} (platform : Platform σ) (double : CDouble α) (hw : Homework) (rs : List Repository)

/-- The repository is the student's: its name is `title-username`, ignoring case. -/
def Owns (student : CString) (r : Repository) : Prop := EqIgnoreCase r.name (repositoryName hw.title student)

/-- The line of a student in the penalty file. -/
def PenaltyOf (student : CString) (line : List UInt8) : Prop :=
  (∀ r ∈ rs, hw.Owns student r → ∃ late,
    calculateLateSubmissionDay hw.deadline r.pushTime hw.isWeekendsOneDay = .ok late ∧
    line = decimal (max (100 - hw.penaltyPerDay * late) 0) ++ [percent]) ∧
  ((∀ r ∈ rs, ¬ hw.Owns student r) → line = decimal 100 ++ [percent])

/-- The files once the student's old report is gone. -/
def cleared (studentId : CString) (files : σ) : σ :=
  platform.deleteFile files (reportPath hw.feedbackReportDir studentId)

/-- The score a student's work has left. -/
def scoreIn (r : Repository) (studentId : CString) (files : σ) : α :=
  parseScore double (platform.content (hw.cleared platform studentId files)
    (scorePath r.work.workDir hw.scoreRelativePath))

/-- The line of a student in the score file, from the files before the row, and the files behind it. -/
def ScoreOf (student studentId : CString) (files files' : σ) (line : List UInt8) : Prop :=
  (∀ r ∈ rs, hw.Owns student r → r.work.exitCode = 0 →
    line = double.print (hw.scoreIn platform double r studentId files) ∧
    ∃ report,
      formatReportByFileReplacement (platform.filesIn (hw.cleared platform studentId files))
        hw.reportTemplate r.work.workDir = .ok report ∧
      files' = platform.writeFile (hw.cleared platform studentId files)
        (reportPath hw.feedbackReportDir studentId) report) ∧
  ((∀ r ∈ rs, hw.Owns student r → r.work.exitCode ≠ 0) → line = double.print double.zero ∧ files' = files)

end Meaning

/-- Nothing overflows, and every name and path fits its buffer. -/
structure Fits (hw : Homework) (rs : List Repository) (sheet : Sheet) (studentX idX : Nat) : Prop where
  name : ∀ y < sheet.height, (repositoryName hw.title (sheet.cell studentX y)).length < 256
  penalty : ∀ r ∈ rs, PenaltyInRange hw.deadline hw.penaltyPerDay hw.isWeekendsOneDay r.pushTime
  report : ∀ y < sheet.height, (reportPath hw.feedbackReportDir (sheet.cell idX y)).length < maxPathLen
  score : ∀ r ∈ rs, (scorePath r.work.workDir hw.scoreRelativePath).length < maxPathLen
  file : ∀ r ∈ rs, ∀ chunks, cut hw.reportTemplate = some chunks → ∀ chunk ∈ chunks, chunk.Fits r.work.workDir

/-! ## The join -/

section Join

variable {hw : Homework} {rs : List Repository} {sheet : Sheet} {studentX idX : Nat}

/-- The record a student's name finds. -/
def find (hw : Homework) (rs : List Repository) (student : CString) : Option Repository :=
  rs.find? (fun r => compareCaseInsensitive r.name (repositoryName hw.title student))

theorem find_eq_some {student : CString} {r : Repository} (h : hw.find rs student = some r) :
    r ∈ rs ∧ hw.Owns student r := by
  have hname := List.find?_some h
  exact ⟨List.mem_of_find?_eq_some h, compareCaseInsensitive_iff.mp hname⟩

theorem find_eq_none {student : CString} (h : hw.find rs student = none) : ∀ r ∈ rs, ¬ hw.Owns student r := by
  intro r hr howns
  exact List.find?_eq_none.mp h r hr (compareCaseInsensitive_iff.mpr howns)

/-- Repositories of one student are one. -/
theorem owns_unique (hdistinct : rs.Pairwise (fun a b => ¬ EqIgnoreCase a.name b.name)) {student : CString}
    {a b : Repository} (ha : a ∈ rs) (hb : b ∈ rs) (hoa : hw.Owns student a) (hob : hw.Owns student b) :
    a = b := by
  have hsymm : Std.Symm (fun a b : Repository => ¬ EqIgnoreCase a.name b.name) :=
    ⟨fun _ _ hab hba => hab hba.symm⟩
  by_contra hne
  exact hdistinct.forall ha hb hne (hoa.trans hob.symm)

/-- A student's repository is found. -/
theorem find_eq_of_owns (hdistinct : rs.Pairwise (fun a b => ¬ EqIgnoreCase a.name b.name)) {student : CString}
    {r : Repository} (hr : r ∈ rs) (howns : hw.Owns student r) : hw.find rs student = some r := by
  cases h : hw.find rs student with
  | none => exact absurd howns (find_eq_none h r hr)
  | some a =>
      obtain ⟨ha, hoa⟩ := find_eq_some h
      rw [owns_unique hdistinct ha hr hoa howns]

/-- The index search and the record search agree. -/
theorem findIndex_cases (hw : Homework) (rs : List Repository) (student : CString) :
    (findIndexCaseInsensitive (rs.map Repository.name) (repositoryName hw.title student) = none ∧
      hw.find rs student = none) ∨
    ∃ index r, findIndexCaseInsensitive (rs.map Repository.name) (repositoryName hw.title student) = some index ∧
      rs[index]? = some r ∧ hw.find rs student = some r := by
  unfold findIndexCaseInsensitive
  cases h : (rs.map Repository.name).findIdx?
      (fun s => compareCaseInsensitive s (repositoryName hw.title student)) with
  | none => exact Or.inl ⟨rfl, Lookup.find?_of_findIdx?_none h⟩
  | some index =>
      obtain ⟨r, hget, hfind⟩ := Lookup.find?_of_findIdx? h
      exact Or.inr ⟨index, r, rfl, hget, hfind⟩

/-- A row of `collect_homework`, from the record its name finds. -/
def collectFound (hw : Homework) (s : Collected) : Option Repository → Except Fault Collected
  | none   => .ok { s with out := s.out ++ penaltyLine hw.penaltyPerDay 0 }
  | some r => do
      let counted ← countSubmission hw.deadline hw.isWeekendsOneDay s r.name r.hash r.pushTime
      .ok { counted.1 with out := counted.1.out ++ penaltyLine hw.penaltyPerDay counted.2 }

/-- **The penalty file joins on names.** -/
theorem collectRow_eq {y : Nat} (hname : (repositoryName hw.title (sheet.cell studentX y)).length < 256)
    (hx : studentX < sheet.width) (hy : y < sheet.height) (s : Collected) :
    collectRow hw.title hw.deadline hw.penaltyPerDay hw.isWeekendsOneDay false (rs.map Repository.name)
      (rs.map Repository.hash) (rs.map Repository.pushTime) sheet studentX s y
      = hw.collectFound s (hw.find rs (sheet.cell studentX y)) := by
  unfold collectRow
  rw [getValue_ok hx hy]
  show (formatString 256 (repositoryName hw.title (sheet.cell studentX y)) >>= _) = _
  rw [formatString_ok hname]
  dsimp only [Bind.bind, Except.bind]
  rcases findIndex_cases hw rs (sheet.cell studentX y) with
    ⟨hindex, hfind⟩ | ⟨index, r, hindex, hget, hfind⟩
  · rw [hindex, hfind]
    rfl
  · rw [hindex, hfind]
    dsimp only
    rw [Lookup.getD_map _ _ hget, Lookup.getD_map _ _ hget, Lookup.getD_map _ _ hget]
    rfl

section Grade

variable {σ α : Type} {platform : Platform σ} {double : CDouble α}

/-- A row of `grade_homework`, from the record its name finds. -/
def gradeFound (platform : Platform σ) (double : CDouble α) (hw : Homework) (studentId : CString) (s : Graded σ) :
    Option Repository → Except Fault (Graded σ)
  | none   => .ok { s with out := s.out ++ scoreLine double double.zero }
  | some r => do
      let graded ← gradeSubmission platform double hw.deadline hw.feedbackReportDir hw.scoreRelativePath
        hw.reportTemplate s studentId r.pushTime r.work
      .ok { graded.1 with out := graded.1.out ++ scoreLine double graded.2 }

/-- **So does the score file.** -/
theorem gradeRow_eq {y : Nat} (hname : (repositoryName hw.title (sheet.cell studentX y)).length < 256)
    (hx : studentX < sheet.width) (hid : idX < sheet.width) (hy : y < sheet.height) (s : Graded σ) :
    gradeRow platform double hw.title hw.deadline hw.feedbackReportDir hw.scoreRelativePath hw.reportTemplate
      false (rs.map Repository.name) (rs.map Repository.pushTime) (rs.map Repository.work) sheet studentX idX s y
      = hw.gradeFound platform double (sheet.cell idX y) s (hw.find rs (sheet.cell studentX y)) := by
  unfold gradeRow
  rw [getValue_ok hx hy, getValue_ok hid hy]
  show (formatString 256 (repositoryName hw.title (sheet.cell studentX y)) >>= _) = _
  rw [formatString_ok hname]
  dsimp only [Bind.bind, Except.bind]
  rcases findIndex_cases hw rs (sheet.cell studentX y) with
    ⟨hindex, hfind⟩ | ⟨index, r, hindex, hget, hfind⟩
  · rw [hindex, hfind]
    rfl
  · rw [hindex, hfind]
    dsimp only
    rw [Lookup.getD_map _ _ hget, Lookup.getD_map _ _ hget]
    rfl

end Grade

/-! ## One row -/

/-- **A row of the penalty file is the line of its student.** -/
theorem collectFound_line (hdistinct : rs.Pairwise (fun a b => ¬ EqIgnoreCase a.name b.name))
    (hfits : Fits hw rs sheet studentX idX) (student : CString) (s : Collected) :
    ∃ s' line, hw.collectFound s (hw.find rs student) = .ok s' ∧ s'.out = s.out ++ (line ++ [newline]) ∧
      newline ∉ line ∧ hw.PenaltyOf rs student line := by
  have hnewline : ∀ x, newline ∉ decimal x ++ [percent] := by
    intro x hmem
    rcases List.mem_append.mp hmem with hmem | hmem
    · exact newline_notMem_decimal x hmem
    · exact absurd (List.mem_singleton.mp hmem) (by decide)
  cases hfind : hw.find rs student with
  | none =>
      have hnone := find_eq_none hfind
      refine ⟨_, decimal 100 ++ [percent], rfl, ?_, hnewline 100, ?_, fun _ => rfl⟩
      · rw [penaltyLine_eq (by simp) (by simp [intMax])]
        simp
      · exact fun r hr howns => absurd howns (hnone r hr)
  | some r =>
      obtain ⟨hr, howns⟩ := find_eq_some hfind
      obtain ⟨s', late, hcount, hout, hlate⟩ := countSubmission_eq s r.name r.hash (hfits.penalty r hr)
      obtain ⟨hlow, hhigh⟩ := (hfits.penalty r hr).2 late hlate
      refine ⟨{ s' with out := s'.out ++ penaltyLine hw.penaltyPerDay late },
        decimal (max (100 - hw.penaltyPerDay * late) 0) ++ [percent], ?_, ?_, hnewline _, ?_, ?_⟩
      · rw [collectFound, hcount]
        rfl
      · rw [penaltyLine_eq hlow hhigh, hout]
        simp
      · intro r' hr' howns'
        rw [owns_unique hdistinct hr' hr howns' howns]
        exact ⟨late, hlate, rfl⟩
      · exact fun hnone => absurd howns (hnone r hr)

section Grade

variable {σ α : Type} (platform : Platform σ) (double : CDouble α)

/-- The student's row gets through: the score and the report of a work that succeeded can be made. -/
def LetsThrough (hw : Homework) (rs : List Repository) (student : CString) : Prop :=
  ∀ r ∈ rs, hw.Owns student r → r.work.exitCode = 0 →
    Gradable platform.isDirectory hw.scoreRelativePath hw.reportTemplate r.work.workDir

/-- **A row of the score file is the line of its student**, if it gets through. -/
theorem gradeFound_line (hdistinct : rs.Pairwise (fun a b => ¬ EqIgnoreCase a.name b.name))
    (hfits : Fits hw rs sheet studentX idX) {student studentId : CString}
    (hpath : (reportPath hw.feedbackReportDir studentId).length < maxPathLen)
    (hthrough : LetsThrough platform hw rs student) (s : Graded σ) :
    ∃ s' line, hw.gradeFound platform double studentId s (hw.find rs student) = .ok s' ∧
      s'.out = s.out ++ (line ++ [newline]) ∧ newline ∉ line ∧
      hw.ScoreOf platform double rs student studentId s.files s'.files line := by
  cases hfind : hw.find rs student with
  | none =>
      have hnone := find_eq_none hfind
      exact ⟨_, double.print double.zero, rfl, rfl, double.newline_notMem_print _,
        fun r hr howns => absurd howns (hnone r hr), fun _ => ⟨rfl, rfl⟩⟩
  | some r =>
      obtain ⟨hr, howns⟩ := find_eq_some hfind
      have hunique : ∀ r' ∈ rs, hw.Owns student r' → r' = r :=
        fun r' hr' howns' => owns_unique hdistinct hr' hr howns' howns
      by_cases hexit : r.work.exitCode = 0
      · obtain ⟨hbrace, hscore, hparts⟩ := hthrough r hr howns hexit
        obtain ⟨report, hreport⟩ := (formatReport_ok_iff (hfits.file r hr)
          (platform.content (hw.cleared platform studentId s.files))).mpr ⟨hbrace, hparts⟩
        have hwork := gradeWork_eq double hpath (hfits.score r hr) hscore hreport
        obtain ⟨s', hrun, hout, hfiles⟩ := gradeSubmission_success double hw.deadline r.pushTime hexit hwork
        refine ⟨{ s' with out := s'.out ++ scoreLine double (hw.scoreIn platform double r studentId s.files) },
          double.print (hw.scoreIn platform double r studentId s.files), ?_, ?_, double.newline_notMem_print _, ?_, ?_⟩
        · rw [gradeFound, hrun]
          rfl
        · rw [hout]
          rfl
        · intro r' hr' howns' _
          rw [hunique r' hr' howns']
          exact ⟨rfl, report, hreport, hfiles⟩
        · exact fun hall => absurd hexit (hall r hr howns)
      · obtain ⟨s', hrun, hout, hfiles⟩ := gradeSubmission_failure double hw.deadline r.pushTime s hexit
        refine ⟨{ s' with out := s'.out ++ scoreLine double double.zero }, double.print double.zero, ?_, ?_,
          double.newline_notMem_print _, ?_, ?_⟩
        · rw [gradeFound, hrun]
          rfl
        · rw [hout]
          rfl
        · intro r' hr' howns' hexit'
          rw [hunique r' hr' howns'] at hexit'
          exact absurd hexit' hexit
        · exact fun _ => ⟨rfl, hfiles⟩

/-- A row that does not get through ends the program. -/
theorem gradeFound_ne_ok (hdistinct : rs.Pairwise (fun a b => ¬ EqIgnoreCase a.name b.name))
    (hfits : Fits hw rs sheet studentX idX) {student : CString} (hthrough : ¬ LetsThrough platform hw rs student)
    (studentId : CString) (s s' : Graded σ) :
    hw.gradeFound platform double studentId s (hw.find rs student) ≠ .ok s' := by
  intro h
  refine hthrough fun r hr howns hexit => ?_
  rw [find_eq_of_owns hdistinct hr howns, gradeFound] at h
  obtain ⟨graded, hrun, _⟩ := Loops.bind_eq_ok h
  exact gradable_of_gradeWork double (hfits.file r hr)
    (gradeWork_of_gradeSubmission double hw.deadline r.pushTime hexit hrun)

end Grade

/-! ## All rows -/

section Runs

variable {σ α : Type} {platform : Platform σ} {double : CDouble α} {files : σ}

/-- Both commands reach their loop. -/
structure Labelled (hw : Homework) (sheet : Sheet) (studentX idX : Nat) : Prop where
  rows : 0 < sheet.height
  student : findLabel sheet hw.studentLabel = some studentX
  id : findLabel sheet hw.idLabel = some idX

theorem collect_eq (h : Labelled hw sheet studentX idX) :
    hw.collect rs sheet = (List.range sheet.height).foldlM
      (collectRow hw.title hw.deadline hw.penaltyPerDay hw.isWeekendsOneDay false (rs.map Repository.name)
        (rs.map Repository.hash) (rs.map Repository.pushTime) sheet studentX) Collected.start := by
  have hwidth : 0 < sheet.width := Nat.zero_lt_of_lt (findLabel_lt h.student)
  unfold collect collectHomework
  rw [if_pos ⟨hwidth, h.rows⟩, h.student]

theorem grade_eq (h : Labelled hw sheet studentX idX) :
    hw.grade platform double rs sheet files = (List.range sheet.height).foldlM
      (gradeRow platform double hw.title hw.deadline hw.feedbackReportDir hw.scoreRelativePath hw.reportTemplate
        false (rs.map Repository.name) (rs.map Repository.pushTime) (rs.map Repository.work) sheet studentX idX)
      (Graded.start files) := by
  have hwidth : 0 < sheet.width := Nat.zero_lt_of_lt (findLabel_lt h.student)
  unfold grade gradeHomework
  rw [if_pos ⟨hwidth, h.rows⟩, h.student, h.id]

/-- The penalty file has one line for each row. -/
theorem collect_hasLines (h : Labelled hw sheet studentX idX)
    (hdistinct : rs.Pairwise (fun a b => ¬ EqIgnoreCase a.name b.name)) (hfits : Fits hw rs sheet studentX idX) :
    ∃ s, hw.collect rs sheet = .ok s ∧
      TextFile.HasLines newline s.out sheet.height (fun y => hw.PenaltyOf rs (sheet.cell studentX y)) := by
  rw [collect_eq h]
  refine Loops.foldlM_range_invariant
    (fun n (s : Collected) => TextFile.HasLines newline s.out n (fun y => hw.PenaltyOf rs (sheet.cell studentX y)))
    (TextFile.hasLines_nil newline _) (fun y hy s hs => ?_)
  obtain ⟨s', line, hrun, hout, hnewline, hline⟩ := collectFound_line hdistinct hfits (sheet.cell studentX y) s
  refine ⟨s', ?_, ?_⟩
  · rw [collectRow_eq (hfits.name y hy) (findLabel_lt h.student) hy, hrun]
  · rw [hout]
    exact hs.concat hnewline hline

/-- The score file has one line for each row, if all of them get through. -/
theorem grade_hasLines (h : Labelled hw sheet studentX idX)
    (hdistinct : rs.Pairwise (fun a b => ¬ EqIgnoreCase a.name b.name)) (hfits : Fits hw rs sheet studentX idX)
    (hthrough : ∀ y < sheet.height, LetsThrough platform hw rs (sheet.cell studentX y)) :
    ∃ s, hw.grade platform double rs sheet files = .ok s ∧ ∃ states : Nat → σ,
      states 0 = files ∧ states sheet.height = s.files ∧
      TextFile.HasLines newline s.out sheet.height (fun y => hw.ScoreOf platform double rs (sheet.cell studentX y)
        (sheet.cell idX y) (states y) (states (y + 1))) := by
  rw [grade_eq h]
  refine Loops.foldlM_range_invariant
    (fun n (s : Graded σ) => ∃ states : Nat → σ, states 0 = files ∧ states n = s.files ∧
      TextFile.HasLines newline s.out n (fun y => hw.ScoreOf platform double rs (sheet.cell studentX y)
        (sheet.cell idX y) (states y) (states (y + 1))))
    ⟨fun _ => files, rfl, rfl, TextFile.hasLines_nil newline _⟩ (fun y hy s hs => ?_)
  obtain ⟨states, hfirst, hlast, hlines⟩ := hs
  obtain ⟨s', line, hrun, hout, hnewline, hline⟩ := gradeFound_line platform double
    hdistinct hfits (hfits.report y hy) (hthrough y hy) s
  refine ⟨s', ?_, Function.update states (y + 1) s'.files, ?_, ?_, ?_⟩
  · rw [gradeRow_eq (hfits.name y hy) (findLabel_lt h.student) (findLabel_lt h.id) hy, hrun]
  · rw [Function.update_of_ne (Nat.succ_ne_zero y).symm, hfirst]
  · rw [Function.update_self]
  · rw [hout]
    -- the rows before keep their states
    refine (hlines.mono ?_).concat hnewline ?_
    · intro i hi l hl
      rw [Function.update_of_ne (by omega), Function.update_of_ne (by omega)]
      exact hl
    · rw [Function.update_self, Function.update_of_ne (by omega), hlast]
      exact hline

/-- The listing order does not matter, nor do repositories of nobody. -/
theorem find_perm (hdistinct : rs.Pairwise (fun a b => ¬ EqIgnoreCase a.name b.name)) {rs' extra : List Repository}
    (hperm : rs'.Perm (rs ++ extra)) {student : CString} (hextra : ∀ r ∈ extra, ¬ hw.Owns student r) :
    hw.find rs' student = hw.find rs student := by
  refine Lookup.find?_perm hperm (fun a ha b hb hoa hob => ?_) (fun r hr => ?_)
  · exact owns_unique hdistinct ha hb (compareCaseInsensitive_iff.mp hoa) (compareCaseInsensitive_iff.mp hob)
  · by_contra hcon
    exact hextra r hr (compareCaseInsensitive_iff.mp (by simpa using hcon))

end Runs

/-- **Row alignment**: both files have one line for each row of the sheet, that of its student, and neither
    depends on the order of the listing or on repositories of nobody in the sheet. -/
structure Aligned {σ α : Type} (platform : Platform σ) (double : CDouble α) (hw : Homework)
    (rs : List Repository) (sheet : Sheet) (studentX idX : Nat) (files : σ) : Prop where
  penalty : ∃ s, hw.collect rs sheet = .ok s ∧
    TextFile.HasLines newline s.out sheet.height (fun y => hw.PenaltyOf rs (sheet.cell studentX y))
  score : ∃ s, hw.grade platform double rs sheet files = .ok s ∧ ∃ states : Nat → σ,
    states 0 = files ∧ states sheet.height = s.files ∧
    TextFile.HasLines newline s.out sheet.height (fun y => hw.ScoreOf platform double rs (sheet.cell studentX y)
      (sheet.cell idX y) (states y) (states (y + 1)))
  order : ∀ rs' extra : List Repository, rs'.Perm (rs ++ extra) →
    (∀ r ∈ extra, ∀ y < sheet.height, ¬ hw.Owns (sheet.cell studentX y) r) →
    hw.collect rs' sheet = hw.collect rs sheet ∧
    hw.grade platform double rs' sheet files = hw.grade platform double rs sheet files

end Join

/-! ## An assignment of two students -/

/-- Files as a list, the newest first, and one directory. -/
def listPlatform : Platform (List (CString × List UInt8)) where
  content files path := ((files.find? (fun f => f.1 = path)).map Prod.snd).getD []
  isDirectory path := path = CString.lit "/cache/hw1-bob/./build"
  deleteFile files path := files.filter (fun f => f.1 ≠ path)
  writeFile files path content := (path, content) :: files

/-- Scores that are whole numbers. -/
def wholeScores : CDouble Nat where
  zero := 0
  atof s := (s.bytes.takeWhile isDigit).foldl (fun n c => 10 * n + (c.toNat - 48)) 0
  print n := decimal n ++ (CString.lit ".000000").bytes
  newline_notMem_print n hmem := by
    rcases List.mem_append.mp hmem with hmem | hmem
    · exact newline_notMem_decimal n hmem
    · exact absurd hmem (by decide)

/-- Ten percent a day, and a report template. -/
def tenPercent (template : String) : Homework where
  title := CString.lit "hw1"
  deadline := 1000000
  penaltyPerDay := 10
  isWeekendsOneDay := 0
  studentLabel := CString.lit "github"
  idLabel := CString.lit "id"
  feedbackReportDir := CString.lit "/feedback/hw1/reports"
  scoreRelativePath := CString.lit "score.txt"
  reportTemplate := (CString.lit template).bytes

/-- The second student has pushed, an hour late. -/
def lateRepository : Repository where
  name := CString.lit "hw1-Bob"
  branch := CString.lit "main"
  hash := GitCommitHash.zero
  pushTime := 1003600
  work := ⟨0, CString.lit "/cache/hw1-bob"⟩

/-- The first one was in time. -/
def earlyRepository : Repository where
  name := CString.lit "hw1-alice"
  branch := CString.lit "master"
  hash := GitCommitHash.zero
  pushTime := 900000
  work := ⟨0, CString.lit "/cache/hw1-alice"⟩

/-- They are not listed in the order of the sheet. -/
def classRepositories : List Repository := [lateRepository, earlyRepository]

/-- Two students. -/
def classSheet : Sheet :=
  ⟨2, 2, [CString.lit "github", CString.lit "id"],
    [CString.lit "Alice", CString.lit "1", CString.lit "bob", CString.lit "2"], rfl, rfl⟩

theorem tenPercent_labelled (template : String) : Labelled (tenPercent template) classSheet 0 1 := by
  refine ⟨by decide, ?_, ?_⟩
  · show findLabel classSheet (CString.lit "github") = some 0
    decide
  · show findLabel classSheet (CString.lit "id") = some 1
    decide

theorem classRepositories_distinct :
    classRepositories.Pairwise (fun a b => ¬ EqIgnoreCase a.name b.name) := by
  decide

theorem tenPercent_fits (template : String)
    (hfile : ∀ r ∈ classRepositories, ∀ chunks, cut (tenPercent template).reportTemplate = some chunks →
      ∀ chunk ∈ chunks, chunk.Fits r.work.workDir) :
    Fits (tenPercent template) classRepositories classSheet 0 1 := by
  have hlate : PenaltyInRange 1000000 10 0 1003600 := by
    refine ⟨by decide, fun late hlate => ?_⟩
    have hone : calculateLateSubmissionDay 1000000 1003600 0 = .ok 1 := by decide
    obtain rfl : 1 = late := Except.ok.inj (hone.symm.trans hlate)
    exact ⟨by decide, by decide⟩
  have hearly : PenaltyInRange 1000000 10 0 900000 := by
    refine ⟨by decide, fun late hlate => ?_⟩
    have hzero : calculateLateSubmissionDay 1000000 900000 0 = .ok 0 := by decide
    obtain rfl : 0 = late := Except.ok.inj (hzero.symm.trans hlate)
    exact ⟨by decide, by decide⟩
  refine ⟨?_, ?_, ?_, ?_, hfile⟩
  · show ∀ y < 2, (repositoryName (CString.lit "hw1") (classSheet.cell 0 y)).length < 256
    decide
  · exact List.forall_mem_cons.mpr ⟨hlate, List.forall_mem_singleton.mpr hearly⟩
  · show ∀ y < 2, (reportPath (CString.lit "/feedback/hw1/reports") (classSheet.cell 1 y)).length < maxPathLen
    decide
  · show ∀ r ∈ classRepositories, (scorePath r.work.workDir (CString.lit "score.txt")).length < maxPathLen
    decide

end Homework

end Hand2
