import Hand2.Feedback.Issues
import Hand2.Library.Loops
import Mathlib.Data.List.GetD

/-!
# `Feedback.Intact` — the scanners give back what they write over

Both scanners cut a name out of their input by writing a NUL over the brace behind it, and put the brace back. Here
they run on the buffer itself: every read sees what is in the buffer at that time, and the buffer is part of what a
run leaves. A brace that was cut is a brace again before the next byte is read (`set_back`), so a run is the run over
an input that never changes, and leaves that input (`reportLoopInPlace_eq`, `issueLoopInPlace_eq`).
-/

namespace Hand2

/-- Writing over a byte, and the byte back. -/
theorem set_back {memory : List UInt8} {i : Nat} {b : UInt8} (h : memory.getD i 0 = b) (c : UInt8) :
    (memory.set i c).set i b = memory := by
  rw [List.set_set]
  by_cases hi : i < memory.length
  · rw [List.getD_eq_getElem?_getD, List.getElem?_eq_getElem hi, Option.getD_some] at h
    rw [← h, List.set_getElem_self]
  · exact List.set_eq_of_length_le (Nat.le_of_not_lt hi)

/-! ## The reports -/

/-- The `for` loop of `format_report_by_file_replacement` on the memory of its template: the memory it leaves, and
    the report. -/
def reportLoopInPlace (files : Files) (dir : CString) :
    Nat → Nat → Nat → Option Nat → List UInt8 → List UInt8 → Except Fault (List UInt8 × List UInt8)
  | 0,        _, _,     _,          memory, result => .ok (memory, result)
  | fuel + 1, i, depth, identifier, memory, result =>
      if i < memory.length then
        let c := fun k => memory.getD (i + k) 0
        if c 0 = dollar ∧ c 1 = dollar then
          reportLoopInPlace files dir fuel (i + 2) depth identifier memory (result ++ [dollar, dollar])
        else if c 0 = dollar ∧ c 1 = openBrace then
          let identifier := if depth = 0 then some (i + 2) else identifier
          reportLoopInPlace files dir fuel (i + 2) (depth + 1) identifier memory result
        else if c 0 = closeBrace then
          let depth := depth - 1
          if depth = 0 then
            match identifier with
            | none => .error .nullPointer
            | some at_ => do
                -- `*c = 0`
                let memory := memory.set i 0
                let out ← replaceIdentifier files dir (CString.ofBytes (memory.drop at_))
                -- `*c = '}'`
                let memory := memory.set i closeBrace
                reportLoopInPlace files dir fuel (i + 1) depth identifier memory (result ++ out)
          else reportLoopInPlace files dir fuel (i + 1) depth identifier memory result
        else if depth = 0 then
          reportLoopInPlace files dir fuel (i + 1) depth identifier memory (result ++ [c 0])
        else reportLoopInPlace files dir fuel (i + 1) depth identifier memory result
      else .ok (memory, result)

/-- `format_report_by_file_replacement` on the memory of its template. -/
def formatReportInPlace (files : Files) (memory : List UInt8) (dir : CString) :
    Except Fault (List UInt8 × List UInt8) :=
  reportLoopInPlace files dir memory.length 0 0 none memory []

/-- The loop on the memory is the loop over a template that never changes. -/
theorem reportLoopInPlace_eq (files : Files) (dir : CString) (memory : List UInt8)
    (fuel i depth : Nat) (identifier : Option Nat) (result : List UInt8) :
    reportLoopInPlace files dir fuel i depth identifier memory result =
      (reportLoop files dir memory fuel i depth identifier result).map fun out => (memory, out) := by
  induction fuel generalizing i depth identifier result with
  | zero => rfl
  | succ fuel ih =>
      simp only [reportLoopInPlace, reportLoop, ih]
      split_ifs with hi hdollars hopen hdepth hclose hlast hdepth
      · rfl
      · rfl
      · rfl
      · -- the brace that closes a placeholder is the only byte that is written over
        have hback : (memory.set i 0).set i closeBrace = memory := set_back hclose 0
        cases identifier with
        | none => rfl
        | some at_ =>
            simp only [hback, ih]
            cases replaceIdentifier files dir (CString.ofBytes ((memory.set i 0).drop at_)) <;> rfl
      · rfl
      · rfl
      · rfl
      · rfl

/-- A report leaves the template as it was. -/
theorem formatReportInPlace_eq (files : Files) (template : List UInt8) (dir : CString) :
    formatReportInPlace files template dir =
      (formatReportByFileReplacement files template dir).map fun report => (template, report) :=
  reportLoopInPlace_eq files dir template template.length 0 0 none []

/-- A student whose report is due: what the files are then, and where his homework was run. -/
structure DueReport where
  files : Files
  workDir : CString

/-- The reports of `grade_homework`, one student after the other, all from one buffer. -/
def formatReports (students : List DueReport) (memory : List UInt8) :
    Except Fault (List UInt8 × List (List UInt8)) :=
  students.foldlM (fun s student => do
      let report ← formatReportInPlace student.files s.1 student.workDir
      .ok (report.1, s.2 ++ [report.2]))
    (memory, [])

/-- The report of a student alone. -/
def reportAlone (template : List UInt8) (student : DueReport) : Except Fault (List UInt8) :=
  (formatReportInPlace student.files template student.workDir).map Prod.snd

/-- A report alone is the report from a template that never changes. -/
theorem reportAlone_eq (template : List UInt8) (student : DueReport) :
    reportAlone template student =
      formatReportByFileReplacement student.files template student.workDir := by
  rw [reportAlone, formatReportInPlace_eq]
  cases formatReportByFileReplacement student.files template student.workDir <;> rfl

/-- The class gets the reports of its students alone. -/
theorem formatReports_eq (students : List DueReport) (template : List UInt8) :
    formatReports students template =
      (students.mapM (reportAlone template)).map fun reports => (template, reports) := by
  have hframe : formatReports students template =
      (students.foldlM (fun done student => (reportAlone template student).map fun report => done ++ [report]) []).map
        fun reports => (template, reports) := by
    apply Loops.foldlM_frame
    intro student _ done
    rw [reportAlone_eq]
    dsimp only
    rw [formatReportInPlace_eq]
    cases formatReportByFileReplacement student.files template student.workDir <;> rfl
  rw [hframe, Loops.foldlM_collect]
  cases students.mapM (reportAlone template) <;> rfl

/-! ## The announcements -/

/-- The `for` loop of `format_feedback_issues` over the memory of report `y`: the memory it leaves, the buffer and the
    success flag. -/
def issueLoopInPlace (sheet : Sheet) (y : Nat) :
    Nat → Nat → Nat → Option Nat → List UInt8 → List UInt8 → Bool → Except Fault (List UInt8 × List UInt8 × Bool)
  | 0,        _, _,     _,     memory, buffer, success => .ok (memory, buffer, success)
  | fuel + 1, i, depth, label, memory, buffer, success =>
      let c := fun k => memory.getD (i + k) 0
      if c 0 ≠ 0 then
        if c 0 = dollar ∧ c 1 = dollar then
          issueLoopInPlace sheet y fuel (i + 2) depth label memory (buffer ++ [dollar]) success
        else if c 0 = dollar ∧ c 1 = openBrace then
          let label := if depth = 0 then some (i + 2) else label
          issueLoopInPlace sheet y fuel (i + 2) (depth + 1) label memory buffer success
        else if c 0 = closeBrace then
          if depth = 1 then
            match label with
            | none => .error .nullPointer
            | some at_ =>
                -- `*c = 0`
                let memory := memory.set i 0
                let x := findLabel sheet (CString.ofBytes (memory.drop at_))
                -- `*c = '}'`
                let memory := memory.set i closeBrace
                match x with
                | some x => do
                    let replacement ← getValue sheet x y
                    issueLoopInPlace sheet y fuel (i + 1) (depth - 1) label memory (buffer ++ replacement.bytes)
                      success
                | none => issueLoopInPlace sheet y fuel (i + 1) (depth - 1) label memory buffer false
          else issueLoopInPlace sheet y fuel (i + 1) (depth - 1) label memory buffer success
        else if depth = 0 then
          issueLoopInPlace sheet y fuel (i + 1) depth label memory (buffer ++ [c 0]) success
        else issueLoopInPlace sheet y fuel (i + 1) depth label memory buffer success
      else .ok (memory, buffer, success)

/-- `format_feedback_issues` on the memory of its reports: what they are afterwards, the success flag and `out`. -/
def formatFeedbackIssuesInPlace (format : List CString) (sheet : Sheet) :
    Except Fault (List (List UInt8) × Bool × List CString) :=
  if format.length ≠ sheet.height then .error .assertion
  else do
    let s ← (List.range sheet.height).foldlM (fun (s : List (List UInt8) × Bool × List CString) y => do
        let memory := s.1.getD y []
        let row ← issueLoopInPlace sheet y memory.length 0 0 none memory [] s.2.1
        .ok (s.1.set y row.1, row.2.2, s.2.2 ++ [CString.ofBytes row.2.1]))
      (format.map CString.bytes, true, [])
    .ok (s.1, s.2.1, if s.2.1 then s.2.2 else [])

/-- The loop on the memory is the loop over a report that never changes. -/
theorem issueLoopInPlace_eq (sheet : Sheet) (y : Nat) (memory : List UInt8) (fuel i depth : Nat) (label : Option Nat)
    (buffer : List UInt8) (success : Bool) :
    issueLoopInPlace sheet y fuel i depth label memory buffer success =
      (issueLoop sheet y memory fuel i depth label buffer success).map fun out => (memory, out) := by
  induction fuel generalizing i depth label buffer success with
  | zero => rfl
  | succ fuel ih =>
      simp only [issueLoopInPlace, issueLoop, ih]
      split_ifs with hend hdollars hopen hdepth hclose hlast hdepth
      · rfl
      · rfl
      · rfl
      · -- the brace that closes a label is the only byte that is written over
        have hback : (memory.set i 0).set i closeBrace = memory := set_back hclose 0
        cases label with
        | none => rfl
        | some at_ =>
            simp only [hback, ih]
            cases findLabel sheet (CString.ofBytes ((memory.set i 0).drop at_)) with
            | none => rfl
            | some x =>
                dsimp only
                cases getValue sheet x y <;> rfl
      · rfl
      · rfl
      · rfl
      · rfl

/-- A call that returns leaves the reports as they were, with or without success. -/
theorem formatFeedbackIssuesInPlace_eq (format : List CString) (sheet : Sheet) :
    formatFeedbackIssuesInPlace format sheet =
      (formatFeedbackIssues format sheet).map fun out => (format.map CString.bytes, out) := by
  unfold formatFeedbackIssuesInPlace formatFeedbackIssues
  split_ifs with hlen
  · rfl
  have hlen : format.length = sheet.height := not_not.mp hlen
  have hreport : ∀ y, (format.map CString.bytes).getD y [] = (format.getD y CString.empty).bytes := by
    intro y
    simp only [List.getD_eq_getElem?_getD, List.getElem?_map]
    cases format[y]? <;> rfl
  -- one round writes back what it has read
  have hset : ∀ y, (format.map CString.bytes).set y (format.getD y CString.empty).bytes = format.map CString.bytes := by
    intro y
    by_cases hy : y < (format.map CString.bytes).length
    · rw [← hreport, List.getD_eq_getElem _ _ hy, List.set_getElem_self]
    · exact List.set_eq_of_length_le (Nat.le_of_not_lt hy)
  refine Loops.bind_frame (Loops.foldlM_frame ?_ _) fun s => rfl
  intro y _ s
  dsimp only
  rw [hreport, issueLoopInPlace_eq]
  cases issueLoop sheet y (format.getD y CString.empty).bytes (format.getD y CString.empty).bytes.length 0 0 none []
    s.1 with
  | error e => rfl
  | ok row  => exact congrArg (fun reports => Except.ok (reports, _)) (hset y)

/-- What the students of a class get, in whatever order they come: as long as each of them alone gets a report. -/
theorem formatReports_ok {students : List DueReport} {template : List UInt8}
    (h : ∀ student ∈ students, ∃ report, reportAlone template student = .ok report) :
    ∃ reports, formatReports students template = .ok (template, reports) ∧
      List.Forall₂ (fun student report => reportAlone template student = .ok report) students reports := by
  obtain ⟨reports, hreports⟩ := Loops.mapM_ok_of_forall h
  refine ⟨reports, ?_, Loops.forall₂_of_mapM_ok hreports⟩
  rw [formatReports_eq, hreports]
  rfl

theorem reportAlone_ok_of_formatReports {students : List DueReport} {template memory : List UInt8}
    {reports : List (List UInt8)} (h : formatReports students template = .ok (memory, reports)) :
    ∀ student ∈ students, ∃ report, reportAlone template student = .ok report := by
  rw [formatReports_eq] at h
  obtain ⟨_, hreports, -⟩ := Loops.map_eq_ok h
  exact Loops.mem_of_mapM_ok hreports

/-- **The input stays intact.** When `format_report_by_file_replacement` returns, the template is what it was. So when
    the reports of a class have been made, in that order or any other, every student has the report he would have got
    alone. When `format_feedback_issues` returns, with or without success, the reports are what they were. -/
theorem inputs_intact :
    (∀ files template dir memory report,
      formatReportInPlace files template dir = .ok (memory, report) → memory = template) ∧
    (∀ students template memory reports, formatReports students template = .ok (memory, reports) →
      ∀ order : List DueReport, order.Perm students →
        ∃ reports', formatReports order template = .ok (template, reports') ∧
          List.Forall₂ (fun student report => reportAlone template student = .ok report) order reports') ∧
    ∀ format sheet reports success out,
      formatFeedbackIssuesInPlace format sheet = .ok (reports, success, out) → reports = format.map CString.bytes := by
  refine ⟨?_, ?_, ?_⟩
  · intro files template dir memory report h
    rw [formatReportInPlace_eq] at h
    obtain ⟨_, -, heq⟩ := Loops.map_eq_ok h
    exact (Prod.mk.inj heq).1.symm
  · intro students template memory reports h order horder
    apply formatReports_ok
    intro student hstudent
    exact reportAlone_ok_of_formatReports h student (horder.subset hstudent)
  · intro format sheet reports success out h
    rw [formatFeedbackIssuesInPlace_eq] at h
    obtain ⟨_, -, heq⟩ := Loops.map_eq_ok h
    exact (Prod.mk.inj heq).1.symm

end Hand2
