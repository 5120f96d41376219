import Hand2.Feedback.Preservation
import Hand2.Library.Loops

/-!
# `Feedback.Composition` — the two stages together

A template in the feedback format, its pieces written down so that none can be malformed, goes through
stage one for every row of the sheet and then through stage two. The result is one simultaneous
substitution: stage one writes what it does not replace in the form stage two expects, and what it pastes
holds nothing stage two would take for a placeholder.
-/

namespace Hand2

open Scanner

/-- **Both stages**, as grading and announcing run them: a report per row, read back as a string, and the
    issues of all reports. The checkout of row `y` is `dirs y`, and its files hold `files y`. -/
def formatFeedback (files : Nat → CString → List UInt8) (template : List UInt8) (dirs : Nat → CString)
    (sheet : Sheet) : Except Fault (Bool × List CString) := do
  let reports ← (List.range sheet.height).mapM
    (fun y => formatReportByFileReplacement (.plain (files y)) template (dirs y))
  formatFeedbackIssues (reports.map CString.ofBytes) sheet

/-! ## Templates -/

/-- Bytes that no stage takes for anything but text: no NUL, no `$` and no `}`. -/
def Inert (w : List UInt8) : Prop := ∀ b ∈ w, b ≠ 0 ∧ b ≠ dollar ∧ b ≠ closeBrace

instance (w : List UInt8) : Decidable (Inert w) :=
  List.decidableBAll (fun b => b ≠ 0 ∧ b ≠ dollar ∧ b ≠ closeBrace) w

/-- Literal text. -/
structure Literal where
  bytes : List UInt8
  inert : Inert bytes

/-- The name of a placeholder: inert, and no `{` either. -/
structure Name where
  bytes : List UInt8
  inert : Inert bytes
  noOpen : openBrace ∉ bytes

/-- A name as a string. -/
def Name.string (name : Name) : CString := ⟨name.bytes, fun h => (name.inert 0 h).1 rfl⟩

/-- A label: a name that is no path. -/
structure LabelName extends Name where
  noPath : isFilePath toName.string = false

/-- A piece of a template. -/
inductive Piece where
  | text (t : Literal)
  | escape
  | file (path : Name)
  | label (name : LabelName)

namespace Piece

/-- The tokens of a piece. -/
def tokens : Piece → List Token
  | text t     => t.bytes.map .text
  | escape     => [.escape]
  | file path  => [.placeholder (dot :: slash :: path.bytes)]
  | label name => [.placeholder name.bytes]

/-- How a piece is written in the template. -/
def render : Piece → List UInt8
  | text t     => t.bytes
  | escape     => [dollar, dollar]
  | file path  => dollar :: openBrace :: dot :: slash :: path.bytes ++ [closeBrace]
  | label name => dollar :: openBrace :: name.bytes ++ [closeBrace]

end Piece

/-- The path of a file placeholder in a checkout. -/
def Name.path (path : Name) (dir : CString) : CString := filePath dir (dot :: slash :: path.bytes)

/-- What a piece stands for: the file, the cell, or itself. -/
def Piece.value (content : CString → List UInt8) (dir : CString) (sheet : Sheet) (y : Nat) :
    Piece → List UInt8
  | .text t     => t.bytes
  | .escape     => [dollar]
  | .file path  => content (path.path dir)
  | .label name => ((sheet.lookup y name.string).getD CString.empty).bytes

/-! ## Writing and reading -/

/-- The text is read as these tokens, whatever follows it. -/
def ReadsAs (w : List UInt8) (ts : List Token) : Prop :=
  ∀ rest, tokenize none (w ++ rest) = (tokenize none rest).map (ts ++ ·)

/-- Inert text is read byte by byte. -/
theorem ReadsAs.inert {w : List UInt8} (hw : Inert w) : ReadsAs w (w.map .text) := by
  intro rest
  induction w with
  | nil => simp
  | cons c w ih =>
      have hc := hw c List.mem_cons_self
      have hstep : ∀ s, tokenize none (c :: s) = (tokenize none s).map (.text c :: ·) := by
        intro s
        cases s with
        | nil => rfl
        | cons c' s => rw [tokenize, if_neg (fun h => hc.2.1 h.1), if_neg (fun h => hc.2.1 h.1)]
      rw [List.cons_append, hstep, ih (fun b hb => hw b (List.mem_cons_of_mem _ hb)), Option.map_map]
      rfl

theorem ReadsAs.escape : ReadsAs [dollar, dollar] [.escape] := by
  intro rest
  show tokenize none (dollar :: dollar :: rest) = _
  rw [tokenize, if_pos ⟨rfl, rfl⟩]
  rfl

/-- A name is read to its brace. -/
theorem tokenize_name {w : List UInt8} (hw : Inert w) (name rest : List UInt8) :
    tokenize (some name) (w ++ closeBrace :: rest)
      = (tokenize none rest).map (.placeholder (name ++ w) :: ·) := by
  induction w generalizing name with
  | nil => rw [List.nil_append, tokenize, if_pos rfl, List.append_nil]
  | cons c w ih =>
      have hc := hw c List.mem_cons_self
      rw [List.cons_append, tokenize, if_neg hc.2.2, if_neg hc.2.1,
        ih (fun b hb => hw b (List.mem_cons_of_mem _ hb)), List.append_assoc]
      rfl

theorem ReadsAs.placeholder {w : List UInt8} (hw : Inert w) :
    ReadsAs (dollar :: openBrace :: w ++ [closeBrace]) [.placeholder w] := by
  intro rest
  have hassoc : dollar :: openBrace :: w ++ [closeBrace] ++ rest
      = dollar :: openBrace :: (w ++ closeBrace :: rest) := by simp
  rw [hassoc, tokenize, if_neg (by decide), if_pos ⟨rfl, rfl⟩, tokenize_name hw [] rest, List.nil_append]
  rfl

/-- Pieces that are read alone are read together. -/
theorem ReadsAs.flatMap {f : Piece → List UInt8} {g : Piece → List Token} {pieces : List Piece}
    (h : ∀ piece ∈ pieces, ReadsAs (f piece) (g piece)) :
    tokenize none (pieces.flatMap f) = some (pieces.flatMap g) := by
  induction pieces with
  | nil => rfl
  | cons piece pieces ih =>
      rw [List.flatMap_cons, List.flatMap_cons, h piece List.mem_cons_self,
        ih (fun p hp => h p (List.mem_cons_of_mem _ hp))]
      rfl

/-- A path is inert. -/
theorem Name.inert_path (path : Name) : Inert (dot :: slash :: path.bytes) := by
  intro b hb
  rcases List.mem_cons.mp hb with rfl | hb
  · decide
  · rcases List.mem_cons.mp hb with rfl | hb
    · decide
    · exact path.inert b hb

/-- A piece is read as its tokens. -/
theorem Piece.readsAs (piece : Piece) : ReadsAs piece.render piece.tokens := by
  cases piece with
  | text t     => exact ReadsAs.inert t.inert
  | escape     => exact ReadsAs.escape
  | file path  => exact ReadsAs.placeholder path.inert_path
  | label name => exact ReadsAs.placeholder name.inert

/-- A file placeholder is taken for a path. -/
theorem Name.isFilePath_path (path : Name) :
    isFilePath (CString.ofBytes (dot :: slash :: path.bytes)) = true := by
  have hbytes : (CString.ofBytes (dot :: slash :: path.bytes)).bytes = dot :: slash :: path.bytes :=
    CString.takeWhile_eq_self (fun h => (path.inert_path 0 h).1 rfl)
  unfold isFilePath
  rw [hbytes]
  rfl

theorem Name.ofBytes_bytes (name : Name) : CString.ofBytes name.bytes = name.string :=
  CString.ofBytes_bytes name.string

/-- No piece is a brace of the text. -/
theorem Piece.noBrace (piece : Piece) : Token.text closeBrace ∉ piece.tokens := by
  cases piece with
  | text t =>
      intro h
      obtain ⟨c, hc, heq⟩ := List.mem_map.mp h
      exact (t.inert c hc).2.2 (Token.text.inj heq)
  | escape     => exact fun h => absurd (List.mem_singleton.mp h) (by simp)
  | file path  => exact fun h => absurd (List.mem_singleton.mp h) (by simp)
  | label name => exact fun h => absurd (List.mem_singleton.mp h) (by simp)

/-! ## What stage one leaves -/

section Paste

variable (content : CString → List UInt8) (dir : CString)

/-- The tokens of a piece after stage one. -/
def Piece.pasted : Piece → List Token
  | .file path => (content (path.path dir)).map .text
  | piece      => piece.tokens

variable {content dir}

theorem fillFiles_text (w : List UInt8) : fillFiles content dir (w.map .text) = w := by
  induction w with
  | nil => rfl
  | cons c w ih =>
      rw [List.map_cons, fillFiles_cons, ih]
      rfl

/-- What stage one writes for a piece is read as the pasted tokens. -/
theorem Piece.readsAs_pasted {piece : Piece}
    (hfile : ∀ path, piece = .file path → Inert (content (path.path dir))) :
    ReadsAs (fillFiles content dir piece.tokens) (piece.pasted content dir) := by
  cases piece with
  | text t     =>
      rw [Piece.tokens, fillFiles_text]
      exact ReadsAs.inert t.inert
  | escape     => exact ReadsAs.escape
  | file path  =>
      have hfill : fillFiles content dir (Piece.file path).tokens = content (path.path dir) := by
        rw [Piece.tokens, fillFiles_cons, fillFile, if_pos path.isFilePath_path]
        exact List.append_nil _
      rw [hfill]
      exact ReadsAs.inert (hfile path rfl)
  | label name =>
      have hfill : fillFiles content dir (Piece.label name).tokens
          = dollar :: openBrace :: name.bytes ++ [closeBrace] := by
        rw [Piece.tokens, fillFiles_cons, fillFile, name.ofBytes_bytes, if_neg (by rw [name.noPath]; decide)]
        exact List.append_nil _
      rw [hfill]
      exact ReadsAs.placeholder name.inert

/-- The pasted tokens hold no brace either. -/
theorem Piece.noBrace_pasted {piece : Piece}
    (hfile : ∀ path, piece = .file path → Inert (content (path.path dir))) :
    Token.text closeBrace ∉ piece.pasted content dir := by
  cases piece with
  | file path =>
      intro h
      obtain ⟨c, hc, heq⟩ := List.mem_map.mp h
      exact (hfile path rfl c hc).2.2 (Token.text.inj heq)
  | text t     => exact (Piece.text t).noBrace
  | escape     => exact Piece.escape.noBrace
  | label name => exact (Piece.label name).noBrace

/-- The pasted tokens of a piece stand for its value. -/
theorem Piece.fillLabels_pasted {sheet : Sheet} {y : Nat} (piece : Piece) :
    fillLabels sheet y (piece.pasted content dir) = piece.value content dir sheet y := by
  have htext : ∀ w : List UInt8, fillLabels sheet y (w.map .text) = w := by
    intro w
    induction w with
    | nil => rfl
    | cons c w ih =>
        show c :: fillLabels sheet y (w.map .text) = _
        rw [ih]
  cases piece with
  | text t     => exact htext _
  | escape     => rfl
  | file path  => exact htext _
  | label name =>
      show ((sheet.lookup y (CString.ofBytes name.bytes)).getD CString.empty).bytes ++ [] = _
      rw [name.ofBytes_bytes, List.append_nil]
      rfl

end Paste

/-! ## One simultaneous substitution -/

variable {content : CString → List UInt8} {sheet : Sheet}
variable {template : List Piece}

/-- The template as stage one reads it. -/
def renderTemplate (template : List Piece) : List UInt8 := template.flatMap Piece.render

/-- What the template stands for in row `y`. -/
def substitute (content : CString → List UInt8) (dir : CString) (sheet : Sheet) (y : Nat)
    (template : List Piece) : List UInt8 := template.flatMap (Piece.value content dir sheet y)

/-- The paths of the file placeholders fit in the checkout `dir`. -/
def TemplateFits (dir : CString) (template : List Piece) : Prop :=
  ∀ path, Piece.file path ∈ template → (path.path dir).length < maxPathLen

theorem zero_notMem_renderTemplate (template : List Piece) : (0 : UInt8) ∉ renderTemplate template := by
  intro h
  obtain ⟨piece, -, h0⟩ := List.mem_flatMap.mp h
  cases piece with
  | text t     => exact (t.inert 0 h0).1 rfl
  | escape     => exact absurd h0 (by decide)
  | file path  =>
      have : (0 : UInt8) ∈ path.bytes := by simpa [Piece.render, dollar, openBrace, closeBrace, dot, slash] using h0
      exact (path.inert 0 this).1 rfl
  | label name =>
      have : (0 : UInt8) ∈ name.bytes := by simpa [Piece.render, dollar, openBrace, closeBrace] using h0
      exact (name.inert 0 this).1 rfl

/-- And none of them is a directory. -/
def TemplateReads (isDirectory : CString → Bool) (dir : CString) (template : List Piece) : Prop :=
  ∀ path, Piece.file path ∈ template → (path.path dir).length < maxPathLen ∧ isDirectory (path.path dir) = false

theorem templateReads_plain {dir : CString} :
    TemplateReads (fun _ => false) dir template ↔ TemplateFits dir template :=
  ⟨fun h path hpath => (h path hpath).1, fun h path hpath => ⟨h path hpath, rfl⟩⟩

theorem pathsRead_iff {isDirectory : CString → Bool} {dir : CString} :
    PathsRead isDirectory dir (template.flatMap Piece.tokens) ↔ TemplateReads isDirectory dir template := by
  constructor
  · intro h path hmem
    exact h _ (List.mem_flatMap.mpr ⟨_, hmem, List.mem_singleton_self _⟩) _ rfl path.isFilePath_path
  · intro h t ht name hname hpath
    subst hname
    obtain ⟨piece, hmem, hin⟩ := List.mem_flatMap.mp ht
    cases piece with
    | text t     => exact absurd hin (by simp [Piece.tokens])
    | escape     => exact absurd hin (by simp [Piece.tokens])
    | file path  =>
        obtain rfl := Token.placeholder.inj (List.mem_singleton.mp hin)
        exact h path hmem
    | label n    =>
        obtain rfl := Token.placeholder.inj (List.mem_singleton.mp hin)
        rw [n.ofBytes_bytes, n.noPath] at hpath
        exact absurd hpath (by decide)

variable (template) in
/-- The report of a row. -/
theorem report_of_template (content : CString → List UInt8) (isDirectory : CString → Bool) (dir : CString) :
    (TemplateReads isDirectory dir template →
      formatReportByFileReplacement ⟨content, isDirectory⟩ (renderTemplate template) dir
        = .ok (fillFiles content dir (template.flatMap Piece.tokens))) ∧
    (¬ TemplateReads isDirectory dir template →
      formatReportByFileReplacement ⟨content, isDirectory⟩ (renderTemplate template) dir = .error .exit) := by
  have htokens : tokenize none (renderTemplate template) = some (template.flatMap Piece.tokens) :=
    ReadsAs.flatMap (fun piece _ => piece.readsAs)
  have hbrace : Token.text closeBrace ∉ template.flatMap Piece.tokens := by
    intro h
    obtain ⟨piece, -, hin⟩ := List.mem_flatMap.mp h
    exact piece.noBrace hin
  rw [← pathsRead_iff]
  exact formatReport_of_tokenize content isDirectory dir (zero_notMem_renderTemplate template) htokens hbrace

/-- And how it is read. -/
theorem tokenize_report {dir : CString}
    (hfiles : ∀ path, Piece.file path ∈ template → Inert (content (path.path dir))) :
    tokenize none (fillFiles content dir (template.flatMap Piece.tokens))
      = some (template.flatMap (Piece.pasted content dir)) := by
  have hsplit : fillFiles content dir (template.flatMap Piece.tokens)
      = template.flatMap (fun piece => fillFiles content dir piece.tokens) := by
    unfold fillFiles
    rw [List.flatMap_assoc]
  rw [hsplit]
  exact ReadsAs.flatMap (fun piece hp => Piece.readsAs_pasted (fun path he => hfiles path (he ▸ hp)))

/-- What stage one writes holds no NUL. -/
theorem zero_notMem_report {dir : CString}
    (hfiles : ∀ path, Piece.file path ∈ template → Inert (content (path.path dir))) :
    (0 : UInt8) ∉ fillFiles content dir (template.flatMap Piece.tokens) := by
  have htokens := tokenize_report hfiles
  intro h0
  -- it would be in a pasted token
  have hrender := render_of_tokenize htokens
  rw [show openText none ++ fillFiles content dir (template.flatMap Piece.tokens)
    = fillFiles content dir (template.flatMap Piece.tokens) from rfl] at hrender
  rw [← hrender] at h0
  obtain ⟨t, ht, h0⟩ := List.mem_flatMap.mp h0
  obtain ⟨piece, hmem, hin⟩ := List.mem_flatMap.mp ht
  have htext : ∀ w : List UInt8, Inert w → t ∈ w.map Token.text → False := by
    intro w hw hin
    obtain ⟨c, hc, rfl⟩ := List.mem_map.mp hin
    obtain rfl := List.mem_singleton.mp h0
    exact (hw 0 hc).1 rfl
  cases piece with
  | text l     => exact htext _ l.inert hin
  | escape     =>
      obtain rfl := List.mem_singleton.mp hin
      exact absurd h0 (by decide)
  | file path  => exact htext _ (hfiles path hmem) hin
  | label name =>
      obtain rfl := List.mem_singleton.mp hin
      have : (0 : UInt8) ∈ name.bytes := by simpa [Token.render, dollar, openBrace, closeBrace] using h0
      exact (name.inert 0 this).1 rfl

/-- The issue of a row. -/
theorem issue_of_template {dir : CString} {y : Nat}
    (hfiles : ∀ path, Piece.file path ∈ template → Inert (content (path.path dir)))
    (hlabels : ∀ name, Piece.label name ∈ template → sheet.HasLabel name.string) :
    labelsFound sheet y
        (CString.ofBytes (fillFiles content dir (template.flatMap Piece.tokens))) = true ∧
    (issueBody sheet y
        (CString.ofBytes (fillFiles content dir (template.flatMap Piece.tokens)))).bytes
      = substitute content dir sheet y template := by
  have hbytes : (CString.ofBytes (fillFiles content dir (template.flatMap Piece.tokens))).bytes
      = fillFiles content dir (template.flatMap Piece.tokens) :=
    CString.takeWhile_eq_self (zero_notMem_report hfiles)
  have htokens := tokenize_report hfiles
  rw [← hbytes] at htokens
  constructor
  · apply labelsFound_of_tokenize htokens
    intro name hname
    obtain ⟨piece, hmem, hin⟩ := List.mem_flatMap.mp hname
    cases piece with
    | text l     => exact absurd hin (by simp [Piece.pasted, Piece.tokens])
    | escape     => exact absurd hin (by simp [Piece.pasted, Piece.tokens])
    | file path  => exact absurd hin (by simp [Piece.pasted])
    | label n    =>
        obtain rfl := Token.placeholder.inj (List.mem_singleton.mp hin)
        rw [n.ofBytes_bytes]
        exact hlabels n hmem
  · have hbrace : Token.text closeBrace ∉ template.flatMap (Piece.pasted content dir) := by
      intro h
      obtain ⟨piece, hmem, hin⟩ := List.mem_flatMap.mp h
      exact Piece.noBrace_pasted (fun path he => hfiles path (he ▸ hmem)) hin
    rw [issueBody_of_tokenize htokens,
      List.filter_eq_self.mpr (fun t ht => decide_eq_true (by rintro rfl; exact hbrace ht))]
    unfold fillLabels substitute
    rw [List.flatMap_assoc]
    exact List.flatMap_congr (fun piece _ => piece.fillLabels_pasted)

/-- **The two stages are one substitution.** A template of literal text, escapes, file and label
    placeholders comes out, for every row, with each file and each cell in place and every `$$` as one
    dollar, if the files are inert and the labels exist; a path that does not fit ends the program. -/
theorem formatFeedback_substitutes {files : Nat → CString → List UInt8} {dirs : Nat → CString}
    (hfiles : ∀ y < sheet.height, ∀ path, Piece.file path ∈ template →
      Inert (files y (path.path (dirs y))))
    (hlabels : ∀ name, Piece.label name ∈ template → sheet.HasLabel name.string) :
    ((∀ y < sheet.height, TemplateFits (dirs y) template) →
      ∃ bodies, formatFeedback files (renderTemplate template) dirs sheet = .ok (true, bodies) ∧
        bodies.map CString.bytes
          = (List.range sheet.height).map (fun y => substitute (files y) (dirs y) sheet y template)) ∧
    ((∃ y < sheet.height, ¬ TemplateFits (dirs y) template) →
      formatFeedback files (renderTemplate template) dirs sheet = .error .exit) := by
  constructor
  · intro hfits
    -- the reports
    let reports := (List.range sheet.height).map
      (fun y => fillFiles (files y) (dirs y) (template.flatMap Piece.tokens))
    have hreports : (List.range sheet.height).mapM
        (fun y => formatReportByFileReplacement (.plain (files y)) (renderTemplate template) (dirs y))
        = .ok reports :=
      Loops.mapM_ok (fun y hy => (report_of_template template (files y) _ (dirs y)).1
        (templateReads_plain.mpr (hfits y (List.mem_range.mp hy))))
    have hlen : (reports.map CString.ofBytes).length = sheet.height := by simp [reports]
    have hget : ∀ y < sheet.height, (reports.map CString.ofBytes).getD y CString.empty
        = CString.ofBytes (fillFiles (files y) (dirs y) (template.flatMap Piece.tokens)) := by
      intro y hy
      simp [reports, List.getD_eq_getElem?_getD, hy]
    have hbody := fun y (hy : y < sheet.height) => issue_of_template (y := y) (hfiles y hy) hlabels
    have hall : (List.range sheet.height).all
        (fun y => labelsFound sheet y ((reports.map CString.ofBytes).getD y CString.empty)) = true := by
      rw [List.all_eq_true]
      intro y hy
      rw [hget y (List.mem_range.mp hy)]
      exact (hbody y (List.mem_range.mp hy)).1
    refine ⟨(List.range sheet.height).map
      (fun y => issueBody sheet y ((reports.map CString.ofBytes).getD y CString.empty)), ?_, ?_⟩
    · unfold formatFeedback
      rw [hreports]
      show formatFeedbackIssues (reports.map CString.ofBytes) sheet = _
      rw [formatFeedbackIssues_eq hlen, hall, if_pos rfl]
    · rw [List.map_map]
      apply List.map_congr_left
      intro y hy
      show (issueBody sheet y _).bytes = _
      rw [hget y (List.mem_range.mp hy)]
      exact (hbody y (List.mem_range.mp hy)).2
  · rintro ⟨y, hy, hlong⟩
    unfold formatFeedback
    have hrow := fun y => report_of_template template (files y) (fun _ => false) (dirs y)
    simp only [templateReads_plain] at hrow
    rw [Loops.mapM_error (e := Fault.exit) ?_ ⟨y, List.mem_range.mpr hy, (hrow y).2 hlong⟩]
    · rfl
    · intro y' _
      by_cases hfits : TemplateFits (dirs y') template
      · exact Or.inr ⟨_, (hrow y').1 hfits⟩
      · exact Or.inl ((hrow y').2 hfits)

/-- The template `Grade ${grade} $$${./diff}`. -/
def gradeTemplate : List Piece :=
  [.text ⟨(CString.lit "Grade ").bytes, by decide⟩,
   .label ⟨⟨(CString.lit "grade").bytes, by decide, by decide⟩, by decide⟩,
   .text ⟨(CString.lit " ").bytes, by decide⟩,
   .escape,
   .file ⟨(CString.lit "diff").bytes, by decide, by decide⟩]

theorem formatFeedback_substitutes_grade :
    ∃ bodies, formatFeedback (fun _ _ => (CString.lit "ok").bytes) (renderTemplate gradeTemplate)
        (fun _ => CString.lit "/hw1") (gradeSheet "grade" "80") = .ok (true, bodies) ∧
      bodies.map CString.bytes = [(CString.lit "Grade 80 $ok").bytes] := by
  have hfiles : ∀ y < (gradeSheet "grade" "80").height, ∀ path, Piece.file path ∈ gradeTemplate →
      Inert (CString.lit "ok").bytes := fun _ _ _ _ => by decide
  have hlabels : ∀ name, Piece.label name ∈ gradeTemplate → (gradeSheet "grade" "80").HasLabel name.string := by
    intro name hname
    obtain rfl : name = ⟨⟨(CString.lit "grade").bytes, by decide, by decide⟩, by decide⟩ := by
      simpa [gradeTemplate] using hname
    decide
  have hfits : ∀ y < (gradeSheet "grade" "80").height, TemplateFits (CString.lit "/hw1") gradeTemplate := by
    intro _ _ path hpath
    obtain rfl : path = ⟨(CString.lit "diff").bytes, by decide, by decide⟩ := by
      simpa [gradeTemplate] using hpath
    decide
  exact (formatFeedback_substitutes hfiles hlabels).1 hfits

end Hand2
