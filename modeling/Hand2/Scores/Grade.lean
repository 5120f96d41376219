import Hand2.Feedback.Interference
import Hand2.Scores.Collect

/-!
# `Scores.Grade` — `grade_homework`, from the graded works on

The loop over the rows once every work has run: each row whose work succeeded gets its score read and its
report written. The files are a state of the platform that the loop threads through its reads and writes, so
a report that is written may be what a later row reads; a directory in place of a file that is read ends the
program. The `double` of a score is whatever `atof` makes of a text and `"%f"` prints.
-/

namespace Hand2

/-- `Work`, as far as it is read after the run: the other fields are read by the run itself. -/
structure Work where
  exitCode : Int
  workDir : CString

/-- The file operations of the platform. -/
structure Platform (σ : Type) where
  /-- What the file at a path holds: nothing if there is none. -/
  content : σ → CString → List UInt8
  /-- The directories: `delete_file` removes none of them, and `fopen` makes none. -/
  isDirectory : CString → Bool
  /-- `platform.delete_file`. -/
  deleteFile : σ → CString → σ
  /-- `platform.fopen(path, "wb")` and, if it is open, `fwrite` and `fclose`. -/
  writeFile : σ → CString → List UInt8 → σ

/-- What `read_entire_file` finds. -/
def Platform.filesIn {σ : Type} (platform : Platform σ) (files : σ) : Files :=
  ⟨platform.content files, platform.isDirectory⟩

/-- A `double`, as far as the program uses it. -/
structure CDouble (α : Type) where
  zero : α
  atof : CString → α
  /-- `"%f"`. -/
  print : α → List UInt8
  /-- `"%f"` prints no line break. -/
  newline_notMem_print : ∀ x, newline ∉ print x

/-- What `grade_homework` has written. -/
structure Graded (σ : Type) where
  files : σ
  out : List UInt8
  submissionCount : Nat
  lateSubmissionCount : Nat
  failureCount : Nat
  deriving DecidableEq

/-- Before the first row. -/
def Graded.start {σ : Type} (files : σ) : Graded σ := ⟨files, [], 0, 0, 0⟩

section Rows

variable {σ α : Type} (platform : Platform σ) (double : CDouble α)

/-- The loop over the score file, up to its first NUL: `atof` at the first digit. -/
def parseScore (content : List UInt8) : α :=
  match (CString.ofBytes content).bytes.dropWhile (fun c => !isDigit c) with
  | []     => double.zero
  | c :: s => double.atof (CString.ofBytes (c :: s))

/-- The report of a student: `"%s/%s.md"`. -/
def reportPath (feedbackReportDir studentId : CString) : CString :=
  feedbackReportDir ++ CString.lit "/" ++ studentId ++ CString.lit ".md"

/-- The score file of a work: `"%s/%s"`. -/
def scorePath (workDir scoreRelativePath : CString) : CString := workDir ++ CString.lit "/" ++ scoreRelativePath

variable (title : CString) (deadline : Int) (feedbackReportDir scoreRelativePath : CString)
  (reportTemplate : List UInt8) (onlyRepo : Bool)

/-- A work that succeeded: the files behind its report, and its score. -/
def gradeWork (files : σ) (studentId workDir : CString) : Except Fault (σ × α) := do
  let reportFile ← formatString maxPathLen (reportPath feedbackReportDir studentId)
  let scoreFile ← formatString maxPathLen (scorePath workDir scoreRelativePath)
  let files := platform.deleteFile files reportFile
  let scoreContent ← (platform.filesIn files).readEntireFile scoreFile
  let report ← formatReportByFileReplacement (platform.filesIn files) reportTemplate workDir
  .ok (platform.writeFile files reportFile report, parseScore double scoreContent)

/-- A row whose repository is found: the counters, the files and `score`. -/
def gradeSubmission (s : Graded σ) (studentId : CString) (pushTime : Int) (work : Work) :
    Except Fault (Graded σ × α) :=
  let s := { s with
    submissionCount := s.submissionCount + 1
    lateSubmissionCount := if pushTime > deadline then s.lateSubmissionCount + 1 else s.lateSubmissionCount
    failureCount := if work.exitCode ≠ 0 then s.failureCount + 1 else s.failureCount }
  if work.exitCode = 0 then do
    let graded ← gradeWork platform double feedbackReportDir scoreRelativePath reportTemplate s.files studentId
      work.workDir
    .ok ({ s with files := graded.1 }, graded.2)
  else .ok (s, double.zero)

/-- `"%f\n"`. -/
def scoreLine (score : α) : List UInt8 := double.print score ++ [newline]

/-- The body of the loop over the rows. -/
def gradeRow (repos : List CString) (pushTime : List Int) (works : List Work) (sheet : Sheet)
    (studentX idX : Nat) (s : Graded σ) (y : Nat) : Except Fault (Graded σ) := do
  let student ← getValue sheet studentX y
  let studentId ← getValue sheet idX y
  let reqName ← formatString 256 (repositoryName title student)
  match findIndexCaseInsensitive repos reqName with
  | none => .ok (if onlyRepo then s else { s with out := s.out ++ scoreLine double double.zero })
  | some index => do
      let graded ← gradeSubmission platform double deadline feedbackReportDir scoreRelativePath reportTemplate s
        studentId (pushTime.getD index 0) (works.getD index ⟨0, CString.empty⟩)
      .ok { graded.1 with out := graded.1.out ++ scoreLine double graded.2 }

/-- `grade_homework`: an empty sheet or one without the labels writes an error and leaves the file empty. -/
def gradeHomework (repos : List CString) (pushTime : List Int) (works : List Work) (sheet : Sheet)
    (studentLabel idLabel : CString) (files : σ) : Except Fault (Graded σ) :=
  if sheet.width > 0 ∧ sheet.height > 0 then
    match findLabel sheet studentLabel, findLabel sheet idLabel with
    | some studentX, some idX =>
        (List.range sheet.height).foldlM
          (gradeRow platform double title deadline feedbackReportDir scoreRelativePath reportTemplate onlyRepo
            repos pushTime works sheet studentX idX)
          (Graded.start files)
    | _, _ => .ok (Graded.start files)
  else .ok (Graded.start files)

end Rows

/-! ## One work -/

/-- A work's score and report can be made of its files: the template has no `}` before its first placeholder, and
    neither the score file nor a file to be pasted is a directory. -/
structure Gradable (isDirectory : CString → Bool) (scoreRelativePath : CString) (reportTemplate : List UInt8)
    (workDir : CString) : Prop where
  brace : ¬ BraceFirst reportTemplate
  score : isDirectory (scorePath workDir scoreRelativePath) = false
  parts : PartsRead isDirectory reportTemplate workDir

section Work

variable {σ α : Type} {platform : Platform σ} (double : CDouble α)
  {feedbackReportDir scoreRelativePath studentId workDir : CString} {reportTemplate : List UInt8} {files : σ}

/-- **A work that succeeded** has its old report deleted, its score read and its new report written. -/
theorem gradeWork_eq {report : List UInt8}
    (hreport : (reportPath feedbackReportDir studentId).length < maxPathLen)
    (hscore : (scorePath workDir scoreRelativePath).length < maxPathLen)
    (hdirectory : platform.isDirectory (scorePath workDir scoreRelativePath) = false)
    (hrun : formatReportByFileReplacement
      (platform.filesIn (platform.deleteFile files (reportPath feedbackReportDir studentId)))
      reportTemplate workDir = .ok report) :
    gradeWork platform double feedbackReportDir scoreRelativePath reportTemplate files studentId workDir
      = .ok (platform.writeFile (platform.deleteFile files (reportPath feedbackReportDir studentId))
              (reportPath feedbackReportDir studentId) report,
            parseScore double
              (platform.content (platform.deleteFile files (reportPath feedbackReportDir studentId))
                (scorePath workDir scoreRelativePath))) := by
  unfold gradeWork
  rw [formatString_ok hreport, formatString_ok hscore]
  show (Files.readEntireFile _ _ >>= _) = _
  rw [Files.readEntireFile_ok hdirectory]
  show (formatReportByFileReplacement _ _ _ >>= _) = _
  rw [hrun]
  rfl

/-- What `gradeWork` gets through. -/
theorem gradeWork_ok {out : σ × α}
    (h : gradeWork platform double feedbackReportDir scoreRelativePath reportTemplate files studentId workDir
      = .ok out) :
    (reportPath feedbackReportDir studentId).length < maxPathLen ∧
    (scorePath workDir scoreRelativePath).length < maxPathLen ∧
    platform.isDirectory (scorePath workDir scoreRelativePath) = false ∧
    ∃ report, formatReportByFileReplacement
        (platform.filesIn (platform.deleteFile files (reportPath feedbackReportDir studentId)))
        reportTemplate workDir = .ok report ∧
      out.1 = platform.writeFile (platform.deleteFile files (reportPath feedbackReportDir studentId))
        (reportPath feedbackReportDir studentId) report := by
  unfold gradeWork at h
  obtain ⟨reportFile, hreport, h⟩ := Loops.bind_eq_ok h
  obtain ⟨scoreFile, hscore, h⟩ := Loops.bind_eq_ok h
  obtain ⟨scoreContent, hread, h⟩ := Loops.bind_eq_ok h
  obtain ⟨report, hrun, h⟩ := Loops.bind_eq_ok h
  obtain rfl := Except.ok.inj h
  obtain rfl := eq_of_formatString hreport
  obtain rfl := eq_of_formatString hscore
  exact ⟨length_lt_of_formatString hreport, length_lt_of_formatString hscore,
    (Files.eq_of_readEntireFile hread).1, report, hrun, rfl⟩

/-- A work whose score is read and whose report is written is gradable. -/
theorem gradable_of_gradeWork
    (hfits : ∀ chunks, cut reportTemplate = some chunks → ∀ chunk ∈ chunks, chunk.Fits workDir) {out : σ × α}
    (h : gradeWork platform double feedbackReportDir scoreRelativePath reportTemplate files studentId workDir
      = .ok out) :
    Gradable platform.isDirectory scoreRelativePath reportTemplate workDir := by
  obtain ⟨-, -, hscore, report, hrun, -⟩ := gradeWork_ok double h
  obtain ⟨hbrace, hparts⟩ := (formatReport_ok_iff hfits _).mp ⟨report, hrun⟩
  exact ⟨hbrace, hscore, hparts⟩

variable (deadline pushTime : Int) {work : Work}

/-- A row whose work succeeded. -/
theorem gradeSubmission_success {s : Graded σ} (hexit : work.exitCode = 0) {files' : σ} {score : α}
    (hwork : gradeWork platform double feedbackReportDir scoreRelativePath reportTemplate s.files studentId
      work.workDir = .ok (files', score)) :
    ∃ s', gradeSubmission platform double deadline feedbackReportDir scoreRelativePath reportTemplate s studentId
        pushTime work = .ok (s', score) ∧ s'.out = s.out ∧ s'.files = files' := by
  unfold gradeSubmission
  dsimp only
  rw [if_pos hexit, hwork]
  exact ⟨_, rfl, rfl, rfl⟩

/-- A row whose work failed scores zero and touches no file. -/
theorem gradeSubmission_failure (s : Graded σ) (hexit : work.exitCode ≠ 0) :
    ∃ s', gradeSubmission platform double deadline feedbackReportDir scoreRelativePath reportTemplate s studentId
        pushTime work = .ok (s', double.zero) ∧ s'.out = s.out ∧ s'.files = s.files := by
  unfold gradeSubmission
  dsimp only
  rw [if_neg hexit]
  exact ⟨_, rfl, rfl, rfl⟩

/-- A row whose work succeeded has been graded once the row is done. -/
theorem gradeWork_of_gradeSubmission {s : Graded σ} (hexit : work.exitCode = 0) {out : Graded σ × α}
    (h : gradeSubmission platform double deadline feedbackReportDir scoreRelativePath reportTemplate s studentId
      pushTime work = .ok out) :
    gradeWork platform double feedbackReportDir scoreRelativePath reportTemplate s.files studentId work.workDir
      = .ok (out.1.files, out.2) := by
  unfold gradeSubmission at h
  dsimp only at h
  rw [if_pos hexit] at h
  obtain ⟨graded, hwork, h⟩ := Loops.bind_eq_ok h
  obtain rfl := Except.ok.inj h
  exact hwork

end Work

end Hand2
