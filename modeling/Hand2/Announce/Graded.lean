import Hand2.Announce.Repeat
import Hand2.Feedback.Composition

/-!
# `Announce.Graded` — from grading to the issues

`grade_homework` leaves a report in the feedback repository for every row whose command succeeded, and leaves the
report of any other student as it was. `announce_grade` retrieves the sheet anew, in which the scores have been entered
meanwhile and whose rows may have moved, and reads a report for every row. What connects the two is the id of the
student, which names the report; so the student reads the last report that was written for it, with the cells of the
new sheet.
-/

namespace Hand2

/-! ## A run of `grade_homework` -/

/-- A run of `grade_homework` from the loop over the rows on: its arguments, and what it has retrieved and run. -/
structure Grading (σ α : Type) where
  platform : Platform σ
  double : CDouble α
  title : CString
  deadline : Int
  feedbackReportDir : CString
  scoreRelativePath : CString
  template : List Piece
  onlyRepo : Bool
  repos : List CString
  pushTime : List Int
  works : List Work
  sheet : Sheet
  studentLabel : CString
  idLabel : CString
  files : σ

namespace Grading

variable {σ α : Type} (g : Grading σ α)

/-- The loop over the rows. -/
def run : Except Fault (Graded σ) :=
  gradeHomework g.platform g.double g.title g.deadline g.feedbackReportDir g.scoreRelativePath
    (renderTemplate g.template) g.onlyRepo g.repos g.pushTime g.works g.sheet g.studentLabel g.idLabel g.files

/-- What a work that succeeded does to the report of its student. -/
def replaceReport (files : σ) (id : CString) (report : List UInt8) : σ :=
  g.platform.writeFile (g.platform.deleteFile files (reportPath g.feedbackReportDir id))
    (reportPath g.feedbackReportDir id) report

/-- The command of row `y` succeeded in this work, so a report is written for `id`. -/
def RowGraded (y : Nat) (id : CString) (work : Work) : Prop :=
  ∃ studentX idX student index, findLabel g.sheet g.studentLabel = some studentX ∧
    findLabel g.sheet g.idLabel = some idX ∧ getValue g.sheet studentX y = .ok student ∧
    getValue g.sheet idX y = .ok id ∧ findIndexCaseInsensitive g.repos (repositoryName g.title student) = some index ∧
    g.works.getD index ⟨0, CString.empty⟩ = work ∧ work.exitCode = 0

/-- The report of row `y` is the last one of those in front of row `n` that is written for `id`. -/
def LastGraded (n y : Nat) (id : CString) (work : Work) : Prop :=
  y < n ∧ g.RowGraded y id work ∧ ∀ y', y < y' → y' < n → ∀ work', ¬ g.RowGraded y' id work'

/-- No report in front of row `n` is written for `id`. -/
def NotGraded (n : Nat) (id : CString) : Prop := ∀ y < n, ∀ work, ¬ g.RowGraded y id work

/-- A file that is pasted into a report. -/
def Pasted (path : CString) : Prop :=
  ∃ y id work name, g.RowGraded y id work ∧ Piece.file name ∈ g.template ∧ path = name.path work.workDir

/-- The reports can be written, and none of them is another student's or a file that is pasted. -/
structure ReportsApart (ids : CString → Prop) : Prop where
  graded : ∀ y id work, g.RowGraded y id work → ids id
  written : ∀ files id report, ids id →
    g.platform.content (g.replaceReport files id report) (reportPath g.feedbackReportDir id) = report
  deleted : ∀ files id path, ids id → g.Pasted path →
    g.platform.content (g.platform.deleteFile files (reportPath g.feedbackReportDir id)) path =
      g.platform.content files path
  replaced : ∀ files id report path, ids id → g.Pasted path →
    g.platform.content (g.replaceReport files id report) path = g.platform.content files path
  others : ∀ files id report other, ids id → ids other → other ≠ id →
    g.platform.content (g.replaceReport files id report) (reportPath g.feedbackReportDir other) =
      g.platform.content files (reportPath g.feedbackReportDir other)

/-- The files that are pasted hold nothing that the second stage takes for a placeholder. -/
def PastesInert : Prop := ∀ path, g.Pasted path → Inert (g.platform.content g.files path)

/-- The report that is made of the files of a work. -/
def reportOf (files : σ) (work : Work) : List UInt8 :=
  fillFiles (g.platform.content files) work.workDir (g.template.flatMap Piece.tokens)

variable {g}

/-- A row has one id and one work. -/
theorem RowGraded.unique {y : Nat} {id id' : CString} {work work' : Work} (h : g.RowGraded y id work)
    (h' : g.RowGraded y id' work') : id' = id ∧ work' = work := by
  obtain ⟨studentX, idX, student, index, hstudentX, hidX, hstudent, hid, hindex, hwork, -⟩ := h
  obtain ⟨studentX', idX', student', index', hstudentX', hidX', hstudent', hid', hindex', hwork', -⟩ := h'
  obtain rfl : studentX' = studentX := Option.some.inj (hstudentX'.symm.trans hstudentX)
  obtain rfl : idX' = idX := Option.some.inj (hidX'.symm.trans hidX)
  obtain rfl : student' = student := Except.ok.inj (hstudent'.symm.trans hstudent)
  obtain rfl : index' = index := Option.some.inj (hindex'.symm.trans hindex)
  exact ⟨Except.ok.inj (hid'.symm.trans hid), hwork'.symm.trans hwork⟩

theorem RowGraded.lt_height {y : Nat} {id : CString} {work : Work} (h : g.RowGraded y id work) :
    y < g.sheet.height := by
  obtain ⟨_, _, _, _, -, -, -, hid, -⟩ := h
  unfold getValue at hid
  split at hid
  · next hrange => exact hrange.2
  · cases hid

/-! ## One row -/

/-- A report depends on the files that its template names, and on nothing else. -/
theorem fillFiles_congr {read read' : CString → List UInt8} {dir : CString} {template : List Piece}
    (h : ∀ path, Piece.file path ∈ template → read (path.path dir) = read' (path.path dir)) :
    fillFiles read dir (template.flatMap Piece.tokens) = fillFiles read' dir (template.flatMap Piece.tokens) := by
  unfold fillFiles
  rw [List.flatMap_assoc, List.flatMap_assoc]
  refine List.flatMap_congr fun piece hpiece => ?_
  show fillFiles read dir piece.tokens = fillFiles read' dir piece.tokens
  cases piece with
  | text t => rw [Piece.tokens, fillFiles_text, fillFiles_text]
  | escape => rfl
  | file path =>
      have hfile : ∀ read, fillFiles read dir (Piece.file path).tokens = read (path.path dir) := by
        intro read
        rw [Piece.tokens, fillFiles_cons, fillFile, if_pos path.isFilePath_path]
        exact List.append_nil _
      rw [hfile, hfile, h path hpiece]
  | label name =>
      have hlabel : ∀ read, fillFiles read dir (Piece.label name).tokens = (Piece.label name).render := by
        intro read
        rw [Piece.tokens, fillFiles_cons, fillFile, name.ofBytes_bytes, if_neg (by rw [name.noPath]; decide)]
        exact List.append_nil _
      rw [hlabel, hlabel]

/-- A work that succeeds replaces the report of its student by the one made of its files. -/
theorem gradeWork_files {files : σ} {id workDir : CString} {out : σ × α} {reportTemplate : List UInt8}
    (h : gradeWork g.platform g.double g.feedbackReportDir g.scoreRelativePath reportTemplate files id workDir
      = .ok out) :
    ∃ report, formatReportByFileReplacement
        (g.platform.filesIn (g.platform.deleteFile files (reportPath g.feedbackReportDir id))) reportTemplate
          workDir = .ok report ∧
      out.1 = g.replaceReport files id report := by
  obtain ⟨-, -, -, report, hreport, hfiles⟩ := gradeWork_ok g.double h
  exact ⟨report, hreport, hfiles⟩

/-- **What a row does to the files**: it replaces the report of its student, or it has none to write. -/
theorem gradeRow_files {studentX idX : Nat} (hstudentX : findLabel g.sheet g.studentLabel = some studentX)
    (hidX : findLabel g.sheet g.idLabel = some idX) {reportTemplate : List UInt8} {s s' : Graded σ} {y : Nat}
    (h : gradeRow g.platform g.double g.title g.deadline g.feedbackReportDir g.scoreRelativePath reportTemplate
      g.onlyRepo g.repos g.pushTime g.works g.sheet studentX idX s y = .ok s') :
    (∃ id work report, g.RowGraded y id work ∧
      formatReportByFileReplacement
        (g.platform.filesIn (g.platform.deleteFile s.files (reportPath g.feedbackReportDir id))) reportTemplate
          work.workDir = .ok report ∧
      s'.files = g.replaceReport s.files id report) ∨
    ((∀ id work, ¬ g.RowGraded y id work) ∧ s'.files = s.files) := by
  unfold gradeRow at h
  obtain ⟨student, hstudent, h⟩ := Loops.bind_eq_ok h
  obtain ⟨studentId, hid, h⟩ := Loops.bind_eq_ok h
  obtain ⟨reqName, hname, h⟩ := Loops.bind_eq_ok h
  obtain rfl := eq_of_formatString hname
  -- what there is to know of a row that is graded
  have hrow : ∀ {id work}, g.RowGraded y id work →
      ∃ index, findIndexCaseInsensitive g.repos (repositoryName g.title student) = some index ∧
        g.works.getD index ⟨0, CString.empty⟩ = work ∧ work.exitCode = 0 := by
    rintro id work ⟨studentX', -, student', index, hstudentX', -, hstudent', -, hindex, hwork, hexit⟩
    obtain rfl : studentX' = studentX := Option.some.inj (hstudentX'.symm.trans hstudentX)
    obtain rfl : student' = student := Except.ok.inj (hstudent'.symm.trans hstudent)
    exact ⟨index, hindex, hwork, hexit⟩
  cases hindex : findIndexCaseInsensitive g.repos (repositoryName g.title student) with
  | none =>
      rw [hindex] at h
      refine .inr ⟨fun id work hgraded => ?_, ?_⟩
      · obtain ⟨index, hfound, -⟩ := hrow hgraded
        cases hindex.symm.trans hfound
      · rw [← Except.ok.inj h]
        split <;> rfl
  | some index =>
      rw [hindex] at h
      obtain ⟨out, hsubmission, h⟩ := Loops.bind_eq_ok h
      rw [← Except.ok.inj h]
      unfold gradeSubmission at hsubmission
      dsimp only at hsubmission ⊢
      by_cases hexit : (g.works.getD index ⟨0, CString.empty⟩).exitCode = 0
      · rw [if_pos hexit] at hsubmission
        obtain ⟨graded, hwork, hout⟩ := Loops.bind_eq_ok hsubmission
        obtain ⟨report, hreport, hfiles⟩ := gradeWork_files hwork
        rw [← Except.ok.inj hout]
        exact .inl ⟨studentId, _, report,
          ⟨studentX, idX, student, index, hstudentX, hidX, hstudent, hid, hindex, rfl, hexit⟩, hreport, hfiles⟩
      · rw [if_neg hexit] at hsubmission
        rw [← Except.ok.inj hsubmission]
        refine .inr ⟨fun id work hgraded => ?_, rfl⟩
        obtain ⟨index', hfound, hwork, hexit'⟩ := hrow hgraded
        obtain rfl : index' = index := Option.some.inj (hfound.symm.trans hindex)
        exact hexit (hwork ▸ hexit')

/-! ## All rows -/

/-- The reports in front of row `n`: the last one written for a student, or else the old one. -/
structure ReportsLeft (g : Grading σ α) (ids : CString → Prop) (n : Nat) (s : σ) : Prop where
  pasted : ∀ path, g.Pasted path → g.platform.content s path = g.platform.content g.files path
  old : ∀ id, ids id → g.NotGraded n id →
    g.platform.content s (reportPath g.feedbackReportDir id) =
      g.platform.content g.files (reportPath g.feedbackReportDir id)
  new : ∀ y id work, g.LastGraded n y id work →
    g.platform.content s (reportPath g.feedbackReportDir id) = g.reportOf g.files work

variable {ids : CString → Prop} {n : Nat}

variable (g) in
/-- Either no report is written for a student, or one of those that are is the last. -/
theorem notGraded_or_lastGraded (n : Nat) (id : CString) :
    g.NotGraded n id ∨ ∃ y work, g.LastGraded n y id work := by
  induction n with
  | zero => exact .inl fun y hy => absurd hy (Nat.not_lt_zero y)
  | succ n ih =>
      by_cases hgraded : ∃ work, g.RowGraded n id work
      · obtain ⟨work, hgraded⟩ := hgraded
        exact .inr ⟨n, work, Nat.lt_succ_self n, hgraded, fun y' hy hlt => by omega⟩
      · push Not at hgraded
        have hlast : ∀ y < n + 1, ¬ y < n → y = n := fun y hy hn => by omega
        rcases ih with hnot | ⟨y, work, hlt, hwork, hlater⟩
        · refine .inl fun y hy work => ?_
          by_cases hn : y < n
          · exact hnot y hn work
          · exact hlast y hy hn ▸ hgraded work
        · refine .inr ⟨y, work, by omega, hwork, fun y' hy hlt' work' => ?_⟩
          by_cases hn : y' < n
          · exact hlater y' hy hn work'
          · exact hlast y' hlt' hn ▸ hgraded work'

theorem LastGraded.of_succ {y : Nat} {id : CString} {work : Work} (h : g.LastGraded (n + 1) y id work) (hne : y ≠ n) :
    g.LastGraded n y id work := by
  obtain ⟨hlt, hgraded, hlast⟩ := h
  exact ⟨by omega, hgraded, fun y' hy hlt' => hlast y' hy (by omega)⟩

/-- A row that is not graded. -/
theorem ReportsLeft.skip {s : σ} (h : ReportsLeft g ids n s) (hnone : ∀ id work, ¬ g.RowGraded n id work) :
    ReportsLeft g ids (n + 1) s where
  pasted := h.pasted
  old id hid hnot := h.old id hid fun y hy => hnot y (by omega)
  new y id work hlast := h.new y id work <| hlast.of_succ <| by
    rintro rfl
    exact hnone id work hlast.2.1

/-- A row whose report is written. -/
theorem ReportsLeft.grade (hapart : g.ReportsApart ids) {s : σ}
    (h : ReportsLeft g ids n s) {id : CString} {work : Work} {report : List UInt8} (hgraded : g.RowGraded n id work)
    (hreport : formatReportByFileReplacement
      (g.platform.filesIn (g.platform.deleteFile s (reportPath g.feedbackReportDir id)))
        (renderTemplate g.template) work.workDir = .ok report) :
    ReportsLeft g ids (n + 1) (g.replaceReport s id report) := by
  have hid := hapart.graded n id work hgraded
  -- the files that are pasted are those from before the first row
  have hread : ∀ path, Piece.file path ∈ g.template →
      g.platform.content (g.platform.deleteFile s (reportPath g.feedbackReportDir id)) (path.path work.workDir)
        = g.platform.content g.files (path.path work.workDir) := by
    intro path hpath
    have hpasted : g.Pasted (path.path work.workDir) := ⟨n, id, work, path, hgraded, hpath, rfl⟩
    rw [hapart.deleted s id _ hid hpasted, h.pasted _ hpasted]
  have hmade : report = g.reportOf g.files work := by
    obtain ⟨hok, hexit⟩ := report_of_template g.template
      (g.platform.content (g.platform.deleteFile s (reportPath g.feedbackReportDir id))) g.platform.isDirectory
      work.workDir
    by_cases hreads : TemplateReads g.platform.isDirectory work.workDir g.template
    · rw [Except.ok.inj (hreport.symm.trans (hok hreads))]
      exact fillFiles_congr hread
    · cases hreport.symm.trans (hexit hreads)
  constructor
  · intro path hpasted
    rw [hapart.replaced s id report path hid hpasted, h.pasted path hpasted]
  · intro other hother hnot
    have hne : other ≠ id := by
      rintro rfl
      exact hnot n (Nat.lt_succ_self n) work hgraded
    rw [hapart.others s id report other hid hother hne]
    exact h.old other hother fun y hy => hnot y (by omega)
  · intro y other work' hlast
    by_cases hy : y = n
    · subst hy
      obtain ⟨rfl, rfl⟩ := hgraded.unique hlast.2.1
      rw [hapart.written s _ report hid, hmade]
    · have hne : other ≠ id := by
        rintro rfl
        exact hlast.2.2 n (by have := hlast.1; omega) (Nat.lt_succ_self n) work hgraded
      rw [hapart.others s id report other hid (hapart.graded y other work' hlast.2.1) hne]
      exact h.new y other work' (hlast.of_succ hy)

/-- Before the first row. -/
theorem ReportsLeft.start : ReportsLeft g ids 0 g.files :=
  ⟨fun _ _ => rfl, fun _ _ _ => rfl, fun _ _ _ hlast => absurd hlast.1 (Nat.not_lt_zero _)⟩

/-- The loop over the rows. -/
theorem ReportsLeft.rows (hapart : g.ReportsApart ids) {studentX idX : Nat}
    (hstudentX : findLabel g.sheet g.studentLabel = some studentX) (hidX : findLabel g.sheet g.idLabel = some idX)
    {graded : Graded σ}
    (hrun : (List.range n).foldlM
      (gradeRow g.platform g.double g.title g.deadline g.feedbackReportDir g.scoreRelativePath
        (renderTemplate g.template) g.onlyRepo g.repos g.pushTime g.works g.sheet studentX idX)
      (Graded.start g.files) = .ok graded) : ReportsLeft g ids n graded.files := by
  induction n generalizing graded with
  | zero =>
      rw [← Except.ok.inj hrun]
      exact start
  | succ n ih =>
      rw [Loops.foldlM_range_succ] at hrun
      obtain ⟨before, hbefore, hrow⟩ := Loops.bind_eq_ok hrun
      rcases gradeRow_files hstudentX hidX hrow with ⟨id, work, report, hgraded, hreport, hfiles⟩ | ⟨hnone, hfiles⟩
      · rw [hfiles]
        exact (ih hbefore).grade hapart hgraded hreport
      · rw [hfiles]
        exact (ih hbefore).skip hnone

/-- Where no row is graded, all reports are the old ones. -/
theorem ReportsLeft.none (hnone : ∀ y id work, ¬ g.RowGraded y id work) (n : Nat) : ReportsLeft g ids n g.files := by
  induction n with
  | zero => exact start
  | succ n ih => exact ih.skip (hnone n)

/-- **What grading leaves of the reports.** -/
theorem reportsLeft (hapart : g.ReportsApart ids) {graded : Graded σ}
    (hrun : g.run = .ok graded) : ReportsLeft g ids g.sheet.height graded.files := by
  unfold run gradeHomework at hrun
  split at hrun
  · split at hrun
    · next studentX idX hstudentX hidX => exact .rows hapart hstudentX hidX hrun
    · next hmissing =>
        rw [← Except.ok.inj hrun]
        refine .none ?_ _
        rintro y id work ⟨studentX, idX, -, -, hstudentX, hidX, -⟩
        exact hmissing studentX idX hstudentX hidX
  · next hempty =>
      rw [← Except.ok.inj hrun]
      refine .none ?_ _
      intro y id work hgraded
      have hlt := hgraded.lt_height
      obtain ⟨studentX, -, -, -, hfound, -⟩ := hgraded
      have hwidth := findLabel_lt hfound
      exact hempty ⟨by omega, by omega⟩

end Grading

/-! ## What announcing makes of them -/

section Announcing

variable {title organization : CString} {run : GradeRun} {plan : AnnouncePlan} {sheet : Sheet} {y : Nat}

/-- The report that `announce_grade` reads for a student. -/
def announcedReport (title : CString) (run : GradeRun) (feedbackDir id : CString) : CString :=
  CString.ofBytes (run.files.content (reportPath (feedbackReportDir title feedbackDir) id))

/-- The body for a row is the report of the row's id, with the cells of the row. -/
theorem body_of_planned (hplan : Planned title organization run plan) (hy : y < run.sheet.height) :
    ∃ feedbackDir idX id, run.feedbackDir = some feedbackDir ∧ findLabel run.sheet run.idLabel = some idX ∧
      getValue run.sheet idX y = .ok id ∧
      elem plan.issueBodies y = issueBody run.sheet y (announcedReport title run feedbackDir id) ∧
      labelsFound run.sheet y (announcedReport title run feedbackDir id) = true := by
  obtain ⟨feedbackDir, idX, reports, hdir, hidX, hreports, hbodies⟩ := hplan.issueBodies
  have hall := Loops.forall₂_of_mapM_ok hreports
  have hlen : reports.length = run.sheet.height := by rw [← hall.length_eq, List.length_range]
  have hreport : readReport run (feedbackReportDir title feedbackDir) idX y = .ok (reports.getD y CString.empty) := by
    have hget := List.Forall₂.get hall (by rwa [List.length_range]) (by rwa [hlen])
    simpa [List.getD_eq_getElem?_getD, List.getElem?_eq_getElem (show y < reports.length by rwa [hlen])] using hget
  unfold readReport at hreport
  obtain ⟨id, hid, hreport⟩ := Loops.bind_eq_ok hreport
  obtain ⟨path, hpath, hreport⟩ := Loops.bind_eq_ok hreport
  obtain ⟨content, hcontent, hreport⟩ := Loops.bind_eq_ok hreport
  obtain rfl := eq_of_formatString hpath
  obtain ⟨-, rfl⟩ := Files.eq_of_readEntireFile hcontent
  have hread : reports.getD y CString.empty = announcedReport title run feedbackDir id := (Except.ok.inj hreport).symm
  rw [formatFeedbackIssues_eq hlen] at hbodies
  obtain ⟨hfound, hissues⟩ := Prod.mk.inj (Except.ok.inj hbodies)
  rw [if_pos hfound] at hissues
  refine ⟨feedbackDir, idX, id, hdir, hidX, hid, ?_, ?_⟩
  · rw [← hissues, ← hread]
    simp [elem, List.getD_eq_getElem?_getD, hy]
  · rw [← hread]
    exact List.all_eq_true.mp hfound y (List.mem_range.mpr hy)

/-- The labels of a text that is announced are in the sheet. -/
theorem hasLabel_of_labelFound {since : Option (List UInt8)} {ts : List Token}
    (h : (tokenEvents since ts).all (labelFound sheet y) = true) {name : List UInt8}
    (hname : Token.placeholder name ∈ ts) : sheet.HasLabel (CString.ofBytes name) := by
  induction ts generalizing since with
  | nil => cases hname
  | cons t ts ih =>
      cases t with
      | text c =>
          rw [tokenEvents, List.all_cons, Bool.and_eq_true] at h
          exact ih h.2 (by simpa using hname)
      | escape =>
          rw [tokenEvents, List.all_cons, Bool.and_eq_true] at h
          exact ih h.2 (by simpa using hname)
      | placeholder other =>
          rw [tokenEvents, List.all_cons, Bool.and_eq_true] at h
          rcases List.mem_cons.mp hname with heq | hname
          · obtain rfl := Token.placeholder.inj heq
            exact Sheet.lookup_isSome_iff.mp h.1
          · exact ih h.2 hname

/-- What is announced of a report that was made of a template. -/
theorem body_of_template {template : List Piece} {content : CString → List UInt8} {dir : CString}
    (hfiles : ∀ path, Piece.file path ∈ template → Inert (content (path.path dir))) {report : CString}
    (hreport : report = CString.ofBytes (fillFiles content dir (template.flatMap Piece.tokens)))
    (hfound : labelsFound sheet y report = true) :
    (issueBody sheet y report).bytes = substitute content dir sheet y template := by
  subst hreport
  refine (issue_of_template hfiles ?_).2
  intro name hname
  have htokens := tokenize_report hfiles
  have hbytes : (CString.ofBytes (fillFiles content dir (template.flatMap Piece.tokens))).bytes =
      fillFiles content dir (template.flatMap Piece.tokens) :=
    CString.takeWhile_eq_self (zero_notMem_report hfiles)
  unfold labelsFound at hfound
  rw [hbytes, show Scanner.start.lex _ = _ from lex_of_tokenize none htokens] at hfound
  have hlabel := hasLabel_of_labelFound hfound
    (List.mem_flatMap.mpr ⟨.label name, hname, List.mem_singleton_self _⟩)
  rwa [name.ofBytes_bytes] at hlabel

end Announcing

/-! ## Both -/

section Both

variable {σ α : Type} {g : Grading σ α} {ids : CString → Prop} {graded : Graded σ} {organization : CString}
  {run : GradeRun} {github : Github}

/-- Announcing reads what grading has left. -/
structure ReadsReports (g : Grading σ α) (ids : CString → Prop) (graded : Graded σ) (run : GradeRun) : Prop where
  row : ∀ idX y id, findLabel run.sheet run.idLabel = some idX → getValue run.sheet idX y = .ok id → ids id
  feedbackDir : ∃ feedbackDir, run.feedbackDir = some feedbackDir ∧
    feedbackReportDir g.title feedbackDir = g.feedbackReportDir
  reports : ∀ id, ids id → run.files.content (reportPath g.feedbackReportDir id) =
    g.platform.content graded.files (reportPath g.feedbackReportDir id)

end Both

/-! ### A grade for Ann -/

/-- Files by their paths. -/
def pathFiles : Platform (CString → List UInt8) where
  content files path := files path
  isDirectory path := path = CString.lit "cache/hw1-ann_2"
  deleteFile files path := Function.update files path []
  writeFile files path content := Function.update files path content

/-- Her work writes `ok`, and the template shows this and the grade. -/
def annGrading : Grading (CString → List UInt8) Unit where
  platform := pathFiles
  double := ⟨(), fun _ => (), fun _ => [], fun _ => List.not_mem_nil⟩
  title := CString.lit "hw1"
  deadline := 0
  feedbackReportDir := CString.lit "cache/feedback_1/hw1/reports"
  scoreRelativePath := CString.lit "score"
  template := gradeTemplate
  onlyRepo := false
  repos := [CString.lit "hw1-ann"]
  pushTime := [0]
  works := [⟨0, CString.lit "cache/hw1-ann_2"⟩]
  sheet := annSheet
  studentLabel := CString.lit "github"
  idLabel := CString.lit "id"
  files path := if path = CString.lit "cache/hw1-ann_2/./diff" then (CString.lit "ok").bytes else []

/-- What is left then. -/
def annLeft : Graded (CString → List UInt8) := annGrading.run.toOption.getD (Graded.start annGrading.files)

/-- Announcing it, with the grade entered. -/
def annAnnouncing : GradeRun :=
  { annRun [] CString.empty with
    sheet := ⟨3, 1, [CString.lit "grade", CString.lit "id", CString.lit "github"],
      [CString.lit "80", CString.lit "7", CString.lit "Ann"], rfl, rfl⟩
    files := pathFiles.filesIn annLeft.files }

theorem annGrading_run : annGrading.run = .ok annLeft := by rfl

/-- The work of row `y` is hers. -/
theorem annGrading_graded {y : Nat} {id : CString} {work : Work} (h : annGrading.RowGraded y id work) :
    y = 0 ∧ id = CString.lit "7" ∧ work = ⟨0, CString.lit "cache/hw1-ann_2"⟩ := by
  have hzero : annGrading.RowGraded 0 (CString.lit "7") ⟨0, CString.lit "cache/hw1-ann_2"⟩ :=
    ⟨1, 0, CString.lit "Ann", 0, rfl, rfl, rfl, rfl, rfl, rfl, rfl⟩
  obtain rfl : y = 0 := Nat.lt_one_iff.mp h.lt_height
  exact ⟨rfl, hzero.unique h⟩

theorem annGrading_pasted {path : CString} (h : annGrading.Pasted path) :
    path = CString.lit "cache/hw1-ann_2/./diff" := by
  obtain ⟨y, id, work, name, hgraded, hname, rfl⟩ := h
  obtain ⟨-, -, rfl⟩ := annGrading_graded hgraded
  obtain rfl : name = ⟨(CString.lit "diff").bytes, by decide, by decide⟩ := by
    simpa [annGrading, gradeTemplate] using hname
  rfl

theorem pathFiles_deleteFile {files : CString → List UInt8} {path other : CString} (h : other ≠ path) :
    pathFiles.content (pathFiles.deleteFile files path) other = pathFiles.content files other := by
  simp [pathFiles, h]

theorem pathFiles_writeFile {files : CString → List UInt8} {path other : CString} (content : List UInt8)
    (h : other ≠ path) : pathFiles.content (pathFiles.writeFile files path content) other =
      pathFiles.content files other := by
  simp [pathFiles, h]

/-- Her report is not the file that is pasted. -/
theorem annGrading_ne : CString.lit "cache/hw1-ann_2/./diff" ≠
    reportPath annGrading.feedbackReportDir (CString.lit "7") := by
  decide

theorem annGrading_apart : annGrading.ReportsApart (· = CString.lit "7") where
  graded _ _ _ h := (annGrading_graded h).2.1
  written files id report _ := by simp [Grading.replaceReport, annGrading, pathFiles]
  deleted files id path hid hpasted := by
    obtain rfl := hid
    obtain rfl := annGrading_pasted hpasted
    exact pathFiles_deleteFile annGrading_ne
  replaced files id report path hid hpasted := by
    obtain rfl := hid
    obtain rfl := annGrading_pasted hpasted
    exact (pathFiles_writeFile report annGrading_ne).trans (pathFiles_deleteFile annGrading_ne)
  others files id report other hid hother hne := absurd (hother.trans hid.symm) hne

theorem annAnnouncing_faithful : Faithful (CString.lit "hw1") annStart annAnnouncing := by
  constructor
  · intro repos _ repo _
    exact ⟨0, [], by simp, rfl, .refl _, .nil⟩
  · intro studentX _ y y' student student' h h' _
    have hfirst : ∀ z text, getValue annAnnouncing.sheet studentX z = .ok text → z = 0 := by
      intro z text hz
      unfold getValue at hz
      split at hz
      · next hrange => exact Nat.lt_one_iff.mp hrange.2
      · cases hz
    rw [hfirst y student h, hfirst y' student' h']

theorem annAnnouncing_sent :
    (afterAnnouncing (CString.lit "hw1") (CString.lit "course") annAnnouncing annStart).sent.map
      (fun sent => (sent.row, sent.repo, sent.issue)) = [(0, CString.lit "hw1-ann", some ⟨4, by decide⟩)] := by
  decide +kernel

end Hand2
