import Hand2.Feedback.Composition
import Mathlib.Algebra.Order.BigOperators.Group.List
import Mathlib.Algebra.Order.Ring.Nat

/-!
# `Feedback.Interference` — what one student's files can do to the others

Stage one cuts the template into text and files before it reads any file (`cut`), so a student decides what
stands in place of the files and nothing else. But stage two reads the pasted content again, and an unknown
label in it aborts the announcement for everybody. `content_noninterference_iff` says when a template leaves
that door closed: only if no file is pasted where stage two can read it.
-/

namespace Hand2

open Scanner

/-! ## Stage one, without the files -/

/-- A part of a report: text, or the file an identifier names. -/
inductive Chunk where
  | text (w : List UInt8)
  | file (identifier : CString)

namespace Chunk

/-- The part an identifier gives. -/
def ofIdentifier (identifier : CString) : Chunk :=
  if isFilePath identifier then file identifier
  else text (dollar :: openBrace :: identifier.bytes ++ [closeBrace])

/-- The part an event gives; none where the program reads through the null pointer. -/
def ofEvent : Event → Option Chunk
  | .escape         => some (text [dollar, dollar])
  | .char c         => some (text [c])
  | .close name     => some (ofIdentifier (CString.ofBytes name))
  | .stray none     => none
  | .stray (some w) => some (ofIdentifier (CString.ofBytes w))

/-- A part with its file in place. -/
def paste (content : CString → List UInt8) (dir : CString) : Chunk → List UInt8
  | text w          => w
  | file identifier => content (dir ++ CString.lit "/" ++ identifier)

/-- The path of the part, if it has one, fits its buffer. -/
def Fits (dir : CString) : Chunk → Prop
  | text _          => True
  | file identifier => (dir ++ CString.lit "/" ++ identifier).length < maxPathLen

instance (dir : CString) (chunk : Chunk) : Decidable (chunk.Fits dir) :=
  match chunk with
  | text _          => inferInstanceAs (Decidable True)
  | file identifier =>
      inferInstanceAs (Decidable ((dir ++ CString.lit "/" ++ identifier).length < maxPathLen))

/-- And is no directory. -/
def Reads (isDirectory : CString → Bool) (dir : CString) : Chunk → Prop
  | text _          => True
  | file identifier => isDirectory (dir ++ CString.lit "/" ++ identifier) = false

instance (isDirectory : CString → Bool) (dir : CString) (chunk : Chunk) : Decidable (chunk.Reads isDirectory dir) :=
  match chunk with
  | text _          => inferInstanceAs (Decidable True)
  | file identifier => inferInstanceAs (Decidable (isDirectory (dir ++ CString.lit "/" ++ identifier) = false))

theorem reads_plain (dir : CString) (chunk : Chunk) : chunk.Reads (fun _ => false) dir := by
  cases chunk with
  | text w          => exact trivial
  | file identifier => rfl

end Chunk

/-- The parts of a list of events. -/
def cutEvents : List Event → Option (List Chunk)
  | []      => some []
  | e :: es => do
      let chunk ← Chunk.ofEvent e
      let rest ← cutEvents es
      some (chunk :: rest)

/-- The parts of some events are the part of the first and those of the others. -/
theorem cutEvents_cons {e : Event} {es : List Event} {chunks : List Chunk} (h : cutEvents (e :: es) = some chunks) :
    ∃ chunk rest, Chunk.ofEvent e = some chunk ∧ cutEvents es = some rest ∧ chunks = chunk :: rest := by
  rw [cutEvents] at h
  obtain ⟨chunk, hchunk, h⟩ := Option.bind_eq_some_iff.mp h
  obtain ⟨rest, hrest, h⟩ := Option.bind_eq_some_iff.mp h
  exact ⟨chunk, rest, hchunk, hrest, (Option.some.inj h).symm⟩

/-- **The parts of a template**, which stage one decides without reading a file. -/
def cut (template : List UInt8) : Option (List Chunk) := cutEvents (start.lex template)

/-- The report with the files in place. -/
def paste (content : CString → List UInt8) (dir : CString) (chunks : List Chunk) : List UInt8 :=
  chunks.flatMap (Chunk.paste content dir)

section Parts

variable (isDirectory : CString → Bool) (dir : CString)

/-- A part whose file can be read is written with the file in place; any other ends the program. -/
theorem replaceIdentifier_ofIdentifier (identifier : CString) :
    (((Chunk.ofIdentifier identifier).Fits dir ∧ (Chunk.ofIdentifier identifier).Reads isDirectory dir) ∧ ∀ content,
      replaceIdentifier ⟨content, isDirectory⟩ dir identifier
        = .ok ((Chunk.ofIdentifier identifier).paste content dir)) ∨
    (¬ ((Chunk.ofIdentifier identifier).Fits dir ∧ (Chunk.ofIdentifier identifier).Reads isDirectory dir) ∧ ∀ content,
      replaceIdentifier ⟨content, isDirectory⟩ dir identifier = .error .exit) := by
  unfold Chunk.ofIdentifier replaceIdentifier
  by_cases hpath : isFilePath identifier = true
  · simp only [if_pos hpath]
    by_cases hfits : (dir ++ CString.lit "/" ++ identifier).length < maxPathLen
    · rw [formatString_ok hfits]
      cases hread : isDirectory (dir ++ CString.lit "/" ++ identifier) with
      | false =>
          left
          refine ⟨⟨hfits, hread⟩, fun content => ?_⟩
          have hfile : (Files.mk content isDirectory).isDirectory (dir ++ CString.lit "/" ++ identifier) = false :=
            hread
          exact Files.readEntireFile_ok hfile
      | true =>
          right
          refine ⟨fun h => absurd (hread.symm.trans h.2) (by simp), fun content => ?_⟩
          have hdir : (Files.mk content isDirectory).isDirectory (dir ++ CString.lit "/" ++ identifier) = true := hread
          exact Files.readEntireFile_exit hdir
    · right
      refine ⟨fun h => hfits h.1, fun content => ?_⟩
      rw [formatString_exit (Nat.le_of_not_lt hfits)]
      rfl
  · simp only [if_neg hpath]
    exact Or.inl ⟨⟨trivial, trivial⟩, fun _ => rfl⟩

/-- An event gives a part that can be written, or ends the program whatever the files hold. -/
theorem reportEvent_cases (e : Event) :
    (∃ chunk, Chunk.ofEvent e = some chunk ∧ (chunk.Fits dir ∧ chunk.Reads isDirectory dir) ∧ ∀ content,
      reportEvent ⟨content, isDirectory⟩ dir e = .ok (chunk.paste content dir)) ∨
    ((∀ chunk, Chunk.ofEvent e = some chunk → ¬ (chunk.Fits dir ∧ chunk.Reads isDirectory dir)) ∧
      ∃ fault, ∀ content, reportEvent ⟨content, isDirectory⟩ dir e = .error fault) := by
  have hidentifier : ∀ identifier : CString,
      (∃ chunk, some (Chunk.ofIdentifier identifier) = some chunk ∧
        (chunk.Fits dir ∧ chunk.Reads isDirectory dir) ∧ ∀ content,
        replaceIdentifier ⟨content, isDirectory⟩ dir identifier = .ok (chunk.paste content dir)) ∨
      ((∀ chunk, some (Chunk.ofIdentifier identifier) = some chunk →
          ¬ (chunk.Fits dir ∧ chunk.Reads isDirectory dir)) ∧
        ∃ fault, ∀ content, replaceIdentifier ⟨content, isDirectory⟩ dir identifier = .error fault) := by
    intro identifier
    rcases replaceIdentifier_ofIdentifier isDirectory dir identifier with ⟨hfits, hrun⟩ | ⟨hfits, hrun⟩
    · exact Or.inl ⟨_, rfl, hfits, hrun⟩
    · refine Or.inr ⟨?_, _, hrun⟩
      intro chunk hchunk
      injection hchunk with hchunk
      exact hchunk ▸ hfits
  cases e with
  | escape      => exact Or.inl ⟨_, rfl, ⟨trivial, trivial⟩, fun _ => rfl⟩
  | char c      => exact Or.inl ⟨_, rfl, ⟨trivial, trivial⟩, fun _ => rfl⟩
  | close name  => exact hidentifier (CString.ofBytes name)
  | stray since =>
      cases since with
      | none   => exact Or.inr ⟨fun chunk h => absurd h (by simp [Chunk.ofEvent]), _, fun _ => rfl⟩
      | some w => exact hidentifier (CString.ofBytes w)

/-- All events give parts that can be written, or the program ends in a way the files have no part in. -/
theorem reportEvents_cases (es : List Event) :
    (∃ chunks, cutEvents es = some chunks ∧ (∀ chunk ∈ chunks, chunk.Fits dir ∧ chunk.Reads isDirectory dir) ∧
      ∀ content, reportEvents ⟨content, isDirectory⟩ dir es = .ok (paste content dir chunks)) ∨
    ((∀ chunks, cutEvents es = some chunks → ¬ ∀ chunk ∈ chunks, chunk.Fits dir ∧ chunk.Reads isDirectory dir) ∧
      ∃ fault, ∀ content, reportEvents ⟨content, isDirectory⟩ dir es = .error fault) := by
  induction es with
  | nil => exact Or.inl ⟨[], rfl, fun _ h => absurd h List.not_mem_nil, fun _ => rfl⟩
  | cons e es ih =>
      rcases reportEvent_cases isDirectory dir e with ⟨chunk, hchunk, hfits, hrun⟩ | ⟨hbad, fault, hrun⟩
      · rcases ih with ⟨chunks, hchunks, hfits', hrun'⟩ | ⟨hbad', fault, hrun'⟩
        · left
          refine ⟨chunk :: chunks, ?_, ?_, ?_⟩
          · rw [cutEvents, hchunk, hchunks]
            rfl
          · intro c hc
            rcases List.mem_cons.mp hc with rfl | hc
            · exact hfits
            · exact hfits' c hc
          · intro content
            rw [reportEvents, hrun, hrun']
            rfl
        · right
          refine ⟨?_, fault, ?_⟩
          · intro chunks hchunks hall
            obtain ⟨_, rest, -, hrest, rfl⟩ := cutEvents_cons hchunks
            exact hbad' rest hrest (fun c hc => hall c (List.mem_cons_of_mem _ hc))
          · intro content
            rw [reportEvents, hrun, hrun']
            rfl
      · right
        refine ⟨?_, fault, ?_⟩
        · intro chunks hchunks hall
          obtain ⟨chunk, _, hchunk, -, rfl⟩ := cutEvents_cons hchunks
          exact hbad chunk hchunk (hall chunk List.mem_cons_self)
        · intro content
          rw [reportEvents, hrun]
          rfl

end Parts

/-- A `}` outside all placeholders before the first `${`: the program reads through the null pointer. -/
def BraceFirst (template : List UInt8) : Prop := Event.stray none ∈ start.lex template

instance (template : List UInt8) : Decidable (BraceFirst template) :=
  inferInstanceAs (Decidable (Event.stray none ∈ start.lex template))

theorem cut_eq_none_iff {template : List UInt8} : cut template = none ↔ BraceFirst template := by
  unfold cut BraceFirst
  induction start.lex template with
  | nil => simp [cutEvents]
  | cons e es ih =>
      rw [cutEvents, List.mem_cons, ← ih]
      cases hchunk : Chunk.ofEvent e with
      | none =>
          have he : Event.stray none = e := by
            cases e with
            | stray since => cases since <;> simp_all [Chunk.ofEvent]
            | _ => simp [Chunk.ofEvent] at hchunk
          simp [he]
      | some chunk =>
          have he : Event.stray none ≠ e := by
            rintro rfl
            simp [Chunk.ofEvent] at hchunk
          cases cutEvents es <;> simp [he]

/-- The files of the template's parts can be read. -/
def PartsRead (isDirectory : CString → Bool) (template : List UInt8) (dir : CString) : Prop :=
  ∀ chunks, cut template = some chunks → ∀ chunk ∈ chunks, chunk.Reads isDirectory dir

/-- **When stage one writes a report**: if the template has no such brace, all paths fit, and none is a directory. -/
theorem formatReport_ok_iff {isDirectory : CString → Bool} {template : List UInt8} {dir : CString}
    (hfits : ∀ chunks, cut template = some chunks → ∀ chunk ∈ chunks, chunk.Fits dir)
    (content : CString → List UInt8) :
    (∃ report, formatReportByFileReplacement ⟨content, isDirectory⟩ template dir = .ok report) ↔
      ¬ BraceFirst template ∧ PartsRead isDirectory template dir := by
  rw [formatReportByFileReplacement_eq]
  rcases reportEvents_cases isDirectory dir (start.lex template) with ⟨chunks, hcut, hread, hrun⟩ | ⟨hbad, fault, hrun⟩
  · have hcut' : cut template = some chunks := hcut
    refine iff_of_true ⟨_, hrun content⟩ ⟨fun hbrace => ?_, fun chunks' h chunk hchunk => ?_⟩
    · exact absurd ((cut_eq_none_iff.mpr hbrace).symm.trans hcut') (by simp)
    · obtain rfl := Option.some.inj (hcut'.symm.trans h)
      exact (hread chunk hchunk).2
  · refine iff_of_false ?_ ?_
    · rintro ⟨report, h⟩
      rw [hrun] at h
      cases h
    · rintro ⟨hbrace, hread⟩
      cases hcut : cut template with
      | none => exact hbrace (cut_eq_none_iff.mp hcut)
      | some chunks =>
          exact hbad chunks hcut fun chunk hchunk => ⟨hfits chunks hcut chunk hchunk, hread chunks hcut chunk hchunk⟩

/-! ## All rows -/

section Rows

variable {template : List UInt8} {dirs : Nat → CString} {sheet : Sheet}

/-- The parts of the template, if stage one gets through it in every row. -/
def CutsTo (template : List UInt8) (dirs : Nat → CString) (sheet : Sheet) (chunks : List Chunk) : Prop :=
  cut template = some chunks ∧ ∀ y < sheet.height, ∀ chunk ∈ chunks, chunk.Fits (dirs y)

/-- The report of row `y`, as stage two reads it. -/
def reportOf (files : Nat → CString → List UInt8) (dirs : Nat → CString) (chunks : List Chunk) (y : Nat) :
    CString := CString.ofBytes (paste (files y) (dirs y) chunks)

/-- The success flag of the announcement. -/
def announced (files : Nat → CString → List UInt8) (dirs : Nat → CString) (sheet : Sheet)
    (chunks : List Chunk) : Bool :=
  (List.range sheet.height).all (fun y => labelsFound sheet y (reportOf files dirs chunks y))

/-- If stage one gets through, the announcement is that of the pasted reports. -/
theorem formatFeedback_of_cutsTo {chunks : List Chunk} (h : CutsTo template dirs sheet chunks)
    (files : Nat → CString → List UInt8) :
    formatFeedback files template dirs sheet
      = .ok (announced files dirs sheet chunks,
          if announced files dirs sheet chunks then
            (List.range sheet.height).map (fun y => issueBody sheet y (reportOf files dirs chunks y))
          else []) := by
  have hrow : ∀ y ∈ List.range sheet.height,
      formatReportByFileReplacement (.plain (files y)) template (dirs y) = .ok (paste (files y) (dirs y) chunks) := by
    intro y hy
    rw [formatReportByFileReplacement_eq]
    rcases reportEvents_cases (fun _ => false) (dirs y) (start.lex template) with ⟨chunks', hcut, -, hrun⟩ | ⟨hbad, -⟩
    · have heq : chunks' = chunks := Option.some.inj (hcut.symm.trans h.1)
      rw [← heq]
      exact hrun (files y)
    · refine absurd (fun chunk hchunk => ?_) (hbad chunks h.1)
      exact ⟨h.2 y (List.mem_range.mp hy) chunk hchunk, chunk.reads_plain (dirs y)⟩
  unfold formatFeedback
  rw [Loops.mapM_ok hrow]
  show formatFeedbackIssues
    (((List.range sheet.height).map fun y => paste (files y) (dirs y) chunks).map CString.ofBytes) sheet = _
  have hget : ∀ y < sheet.height,
      (((List.range sheet.height).map fun y => paste (files y) (dirs y) chunks).map CString.ofBytes).getD y
        CString.empty = reportOf files dirs chunks y := by
    intro y hy
    simp [List.getD_eq_getElem?_getD, hy, reportOf]
  rw [formatFeedbackIssues_eq (by simp)]
  have hall : (List.range sheet.height).all (fun y => labelsFound sheet y
      ((((List.range sheet.height).map fun y => paste (files y) (dirs y) chunks).map CString.ofBytes).getD y
        CString.empty)) = announced files dirs sheet chunks := by
    unfold announced
    rw [Bool.eq_iff_iff, List.all_eq_true, List.all_eq_true]
    constructor
    · intro hy y hm
      rw [← hget y (List.mem_range.mp hm)]
      exact hy y hm
    · intro hy y hm
      rw [hget y (List.mem_range.mp hm)]
      exact hy y hm
  rw [hall]
  congr 2
  split
  · exact List.map_congr_left (fun y hy => by rw [hget y (List.mem_range.mp hy)])
  · rfl

/-- If it does not, the program ends whatever the files hold. -/
theorem formatFeedback_of_not_cutsTo (h : ¬ ∃ chunks, CutsTo template dirs sheet chunks)
    (hrows : sheet.height ≠ 0) :
    ∃ fault, ∀ files, formatFeedback files template dirs sheet = .error fault := by
  have hcases := fun y => reportEvents_cases (fun _ => false) (dirs y) (start.lex template)
  obtain ⟨fault, hfault⟩ := Loops.mapM_error_uniform (l := List.range sheet.height)
    (F := fun (files : Nat → CString → List UInt8) y =>
      formatReportByFileReplacement (.plain (files y)) template (dirs y))
    (fun y _ => by
      rcases hcases y with ⟨chunks, -, -, hrun⟩ | ⟨-, fault, hrun⟩
      · exact Or.inr (fun files => ⟨_, (formatReportByFileReplacement_eq template).trans (hrun (files y))⟩)
      · exact Or.inl ⟨fault, fun files => (formatReportByFileReplacement_eq template).trans (hrun (files y))⟩)
    (by
      by_contra hcon
      -- every row gets through, with the same parts
      have hall : ∀ y < sheet.height, ∃ chunks, cut template = some chunks ∧
          ∀ chunk ∈ chunks, chunk.Fits (dirs y) := by
        intro y hy
        rcases hcases y with ⟨chunks, hcut, hfits, -⟩ | ⟨-, fault, hrun⟩
        · exact ⟨chunks, hcut, fun chunk hchunk => (hfits chunk hchunk).1⟩
        · exact absurd ⟨y, List.mem_range.mpr hy, fault, fun files =>
            (formatReportByFileReplacement_eq template).trans (hrun (files y))⟩ hcon
      obtain ⟨chunks, hcut, -⟩ := hall 0 (Nat.pos_of_ne_zero hrows)
      refine h ⟨chunks, hcut, ?_⟩
      intro y hy
      obtain ⟨chunks', hcut', hfits⟩ := hall y hy
      rw [Option.some.inj (hcut.symm.trans hcut')]
      exact hfits)
  refine ⟨fault, ?_⟩
  intro files
  unfold formatFeedback
  rw [hfault files]
  rfl

end Rows

/-! ## What a pasted text can do -/

/-- A brace closes one placeholder, if one is open. -/
theorem step_closeBrace (s : Scanner) :
    ∃ since, (s.step closeBrace).1 = ⟨s.depth - 1, since, false⟩ := by
  have h1 : ¬ closeBrace = dollar := by decide
  have h2 : ¬ closeBrace = openBrace := by decide
  unfold step
  rw [if_neg h1, if_neg h2, if_neg h1]
  unfold plain
  rw [if_pos rfl]
  split <;> exact ⟨_, rfl⟩

/-- Enough braces close every placeholder that is open. -/
theorem after_braces (s : Scanner) (k : Nat) :
    ∃ since, s.after (List.replicate (k + 1) closeBrace) = ⟨s.depth - (k + 1), since, false⟩ := by
  induction k generalizing s with
  | zero => exact step_closeBrace s
  | succ k ih =>
      obtain ⟨since, hstep⟩ := step_closeBrace s
      obtain ⟨since', h⟩ := ih (s.step closeBrace).1
      refine ⟨since', ?_⟩
      show (s.step closeBrace).1.after (List.replicate (k + 1) closeBrace) = _
      rw [h, hstep]
      congr 1
      show s.depth - 1 - (k + 1) = s.depth - (k + 1 + 1)
      omega

/-- A label is read to its brace. -/
theorem lex_label {name : List UInt8} (hname : ∀ b ∈ name, b ≠ dollar ∧ b ≠ closeBrace)
    (v rest : List UInt8) :
    lex ⟨1, some v, false⟩ (name ++ closeBrace :: rest)
      = .close (v ++ name) :: lex ⟨0, some (v ++ name ++ [closeBrace]), false⟩ rest := by
  induction name generalizing v with
  | nil =>
      rw [List.nil_append, lex_close, if_neg (by decide), if_pos rfl, List.append_nil]
      rfl
  | cons c name ih =>
      have hc := hname c List.mem_cons_self
      rw [List.cons_append, lex_char 1 _ _ hc.2 (fun hd => absurd hd hc.1), if_neg (by decide),
        List.nil_append, extend_some, ih (fun b hb => hname b (List.mem_cons_of_mem _ hb)),
        List.append_assoc]
      simp

/-- Text that makes stage two look up a label of its own, whatever stands before it. -/
def attack (depth : Nat) (label : CString) : List UInt8 :=
  List.replicate (depth + 1) closeBrace ++ (dollar :: openBrace :: (label.bytes ++ [closeBrace]))

theorem close_mem_lex_attack (s : Scanner) {label : CString}
    (hlabel : ∀ b ∈ label.bytes, b ≠ dollar ∧ b ≠ closeBrace) (rest : List UInt8) :
    Event.close label.bytes ∈ s.lex (attack s.depth label ++ rest) := by
  obtain ⟨since, hafter⟩ := after_braces s s.depth
  unfold attack
  rw [List.append_assoc, lex_append, hafter, Nat.sub_eq_zero_of_le (Nat.le_succ _)]
  refine List.mem_append_right _ ?_
  show _ ∈ lex ⟨0, since, false⟩ (dollar :: openBrace :: (label.bytes ++ [closeBrace] ++ rest))
  rw [lex_open, if_pos rfl, List.append_assoc]
  show _ ∈ lex ⟨1, some [], false⟩ (label.bytes ++ closeBrace :: rest)
  rw [lex_label hlabel]
  exact List.mem_cons_self

/-- No sheet has every label. -/
theorem exists_missing_label (sheet : Sheet) :
    ∃ label : CString, (∀ b ∈ label.bytes, b ≠ 0 ∧ b ≠ dollar ∧ b ≠ closeBrace) ∧ ¬ sheet.HasLabel label := by
  -- a label longer than all of them together
  let n := (sheet.labels.map CString.length).sum + 1
  have hx : ∀ b ∈ List.replicate n (120 : UInt8), b ≠ 0 ∧ b ≠ dollar ∧ b ≠ closeBrace := by
    intro b hb
    obtain rfl := List.eq_of_mem_replicate hb
    decide
  refine ⟨⟨List.replicate n 120, fun h0 => (hx 0 h0).1 rfl⟩, hx, ?_⟩
  intro hlabel
  have hle : CString.length ⟨List.replicate n 120, fun h0 => (hx 0 h0).1 rfl⟩
      ≤ (sheet.labels.map CString.length).sum :=
    List.le_sum_of_mem (List.mem_map_of_mem hlabel)
  simp only [CString.length, List.length_replicate] at hle
  exact absurd hle (Nat.not_succ_le_self _)

/-- A report with a label the sheet does not have fails. -/
theorem labelsFound_eq_false {sheet : Sheet} {y : Nat} {report : CString} (name : List UInt8)
    (hmem : Event.close name ∈ start.lex report.bytes)
    (hlabel : ¬ sheet.HasLabel (CString.ofBytes name)) : labelsFound sheet y report = false := by
  by_contra hcon
  have hall : labelsFound sheet y report = true := by simpa using hcon
  have := List.all_eq_true.mp hall _ hmem
  exact hlabel (Sheet.lookup_isSome_iff.mp this)

/-- A text all of whose labels are in the sheet succeeds, however it ends. -/
theorem labelsFound_of_emitted {sheet : Sheet} {y : Nat} {report : CString}
    (h : ∀ name, Event.close name ∈ start.emitted report.bytes → sheet.HasLabel (CString.ofBytes name)) :
    labelsFound sheet y report = true := by
  have hsplit := lex_append start report.bytes []
  rw [List.append_nil] at hsplit
  unfold labelsFound
  rw [hsplit, List.all_eq_true]
  intro e he
  rcases List.mem_append.mp he with he | he
  · cases e with
    | close name => exact Sheet.lookup_isSome_iff.mpr (h name he)
    | escape     => rfl
    | char c     => rfl
    | stray w    => rfl
  · -- what ends the text is at most a dollar
    have hflush : e ∈ (start.after report.bytes).flush := he
    unfold flush at hflush
    split at hflush
    · obtain rfl := List.mem_singleton.mp hflush
      rfl
    · exact absurd hflush List.not_mem_nil

/-! ## Two contents of one student's files -/

section Influence

variable {template : List UInt8} {dirs : Nat → CString} {sheet : Sheet}

/-- The announcement is the same for everybody but the student of row `y`: it ends in the same way, and on
    success all other issue bodies agree. -/
def SameForOthers (y : Nat) (a b : Except Fault (Bool × List CString)) : Prop :=
  a.map Prod.fst = b.map Prod.fst ∧
  ∀ bodies bodies', a = .ok (true, bodies) → b = .ok (true, bodies') →
    ∀ y', y' ≠ y → bodies[y']? = bodies'[y']?

/-- **The open door**: stage one gets through, and pastes a file behind text that stage two reads to its end
    and whose labels are all in the sheet. -/
def Exposed (template : List UInt8) (dirs : Nat → CString) (sheet : Sheet) : Prop :=
  ∃ (before : List (List UInt8)) (identifier : CString) (after : List Chunk),
    CutsTo template dirs sheet (before.map Chunk.text ++ .file identifier :: after) ∧
    (0 : UInt8) ∉ before.flatten ∧
    ∀ name, Event.close name ∈ start.emitted before.flatten → sheet.HasLabel (CString.ofBytes name)

/-- A report of text alone. -/
theorem paste_text (content : CString → List UInt8) (dir : CString) (texts : List (List UInt8)) :
    paste content dir (texts.map Chunk.text) = texts.flatten := by
  induction texts with
  | nil => rfl
  | cons w texts ih =>
      rw [List.flatten_cons, ← ih]
      rfl

/-- A report with a file in it starts with the text before the first one. -/
theorem paste_before (content : CString → List UInt8) (dir : CString) (before : List (List UInt8))
    (identifier : CString) (after : List Chunk) :
    paste content dir (before.map Chunk.text ++ .file identifier :: after)
      = before.flatten ++ (content (dir ++ CString.lit "/" ++ identifier)
          ++ paste content dir after) := by
  rw [← paste_text content dir before]
  unfold paste
  rw [List.flatMap_append, List.flatMap_cons]
  rfl

/-- Without a file a report is text alone; else there is a first file. -/
theorem exists_first_file (chunks : List Chunk) :
    (∃ texts : List (List UInt8), chunks = texts.map Chunk.text) ∨
    ∃ (before : List (List UInt8)) (identifier : CString) (after : List Chunk),
      chunks = before.map Chunk.text ++ .file identifier :: after := by
  induction chunks with
  | nil => exact Or.inl ⟨[], rfl⟩
  | cons chunk chunks ih =>
      cases chunk with
      | file identifier => exact Or.inr ⟨[], identifier, chunks, rfl⟩
      | text w =>
          rcases ih with ⟨texts, rfl⟩ | ⟨before, identifier, after, rfl⟩
          · exact Or.inl ⟨w :: texts, rfl⟩
          · exact Or.inr ⟨w :: before, identifier, after, rfl⟩

/-- A file that starts with a NUL ends the report of an exposed template with success. -/
theorem labelsFound_nul {before : List (List UInt8)} {identifier : CString} {after : List Chunk}
    (hnul : (0 : UInt8) ∉ before.flatten)
    (hlabels : ∀ name, Event.close name ∈ start.emitted before.flatten → sheet.HasLabel (CString.ofBytes name))
    {files : Nat → CString → List UInt8} {y : Nat} (hfile : files y = fun _ => [0]) :
    labelsFound sheet y (reportOf files dirs (before.map Chunk.text ++ .file identifier :: after) y) = true := by
  have hreport : reportOf files dirs (before.map Chunk.text ++ .file identifier :: after) y
      = ⟨before.flatten, hnul⟩ := by
    unfold reportOf
    rw [paste_before, hfile]
    apply CString.ext
    show (CString.ofBytes (before.flatten ++ 0 :: _)).bytes = before.flatten
    rw [CString.ofBytes_append_zero]
    exact CString.takeWhile_eq_self hnul
  rw [hreport]
  exact labelsFound_of_emitted hlabels

/-- A file that attacks fails the report of an exposed template. -/
theorem labelsFound_attack {before : List (List UInt8)} {identifier : CString} {after : List Chunk}
    (hnul : (0 : UInt8) ∉ before.flatten) {label : CString}
    (hlabel : ∀ b ∈ label.bytes, b ≠ 0 ∧ b ≠ dollar ∧ b ≠ closeBrace) (hmissing : ¬ sheet.HasLabel label)
    {files : Nat → CString → List UInt8} {y : Nat}
    (hfile : files y = fun _ => attack (start.after before.flatten).depth label) :
    labelsFound sheet y (reportOf files dirs (before.map Chunk.text ++ .file identifier :: after) y) = false := by
  have hattack : (0 : UInt8) ∉ attack (start.after before.flatten).depth label := by
    intro h0
    rcases List.mem_append.mp h0 with h0 | h0
    · exact absurd (List.eq_of_mem_replicate h0) (by decide)
    · rcases List.mem_cons.mp h0 with h0 | h0
      · exact absurd h0 (by decide)
      · rcases List.mem_cons.mp h0 with h0 | h0
        · exact absurd h0 (by decide)
        · rcases List.mem_append.mp h0 with h0 | h0
          · exact label.noNul h0
          · exact absurd (List.mem_singleton.mp h0) (by decide)
  refine labelsFound_eq_false label.bytes ?_ (by rwa [CString.ofBytes_bytes])
  unfold reportOf
  rw [paste_before, hfile, CString.bytes_ofBytes_append hnul, CString.bytes_ofBytes_append hattack, lex_append]
  exact List.mem_append_right _ (close_mem_lex_attack _ (fun b hb => (hlabel b hb).2) _)

/-- Where the door is closed, the files of a row cannot change whether its report succeeds. -/
theorem labelsFound_eq_of_not_exposed {chunks : List Chunk} (hcut : CutsTo template dirs sheet chunks)
    (h : ¬ Exposed template dirs sheet) (files files' : Nat → CString → List UInt8) (y : Nat) :
    labelsFound sheet y (reportOf files dirs chunks y) = labelsFound sheet y (reportOf files' dirs chunks y) := by
  rcases exists_first_file chunks with ⟨texts, rfl⟩ | ⟨before, identifier, after, rfl⟩
  · -- no file at all
    have htext : ∀ files : Nat → CString → List UInt8,
        reportOf files dirs (texts.map Chunk.text) y = CString.ofBytes texts.flatten := by
      intro files
      unfold reportOf
      rw [paste_text]
    rw [htext, htext]
  · by_cases hnul : (0 : UInt8) ∈ before.flatten
    · -- stage two does not read as far as the file
      have hcutoff : ∀ files : Nat → CString → List UInt8,
          reportOf files dirs (before.map Chunk.text ++ .file identifier :: after) y
            = CString.ofBytes before.flatten := by
        intro files
        unfold reportOf
        rw [paste_before, CString.ofBytes_append_of_mem hnul]
      rw [hcutoff, hcutoff]
    · -- a label before the file is missing, so the report fails in any case
      obtain ⟨name, hmem, hmissing⟩ : ∃ name, Event.close name ∈ start.emitted before.flatten ∧
          ¬ sheet.HasLabel (CString.ofBytes name) := by
        by_contra hcon
        refine h ⟨before, identifier, after, hcut, hnul, ?_⟩
        intro name hmem
        by_contra hmissing
        exact hcon ⟨name, hmem, hmissing⟩
      have hfail : ∀ files : Nat → CString → List UInt8, labelsFound sheet y
          (reportOf files dirs (before.map Chunk.text ++ .file identifier :: after) y) = false := by
        intro files
        refine labelsFound_eq_false name ?_ hmissing
        unfold reportOf
        rw [paste_before, CString.bytes_ofBytes_append hnul, lex_append]
        exact List.mem_append_left _ hmem
      rw [hfail, hfail]

/-- The files of row `y` are no part of another row's report. -/
theorem reportOf_update {files : Nat → CString → List UInt8} {y y' : Nat} (hne : y' ≠ y)
    (c : CString → List UInt8) (chunks : List Chunk) :
    reportOf (Function.update files y c) dirs chunks y' = reportOf files dirs chunks y' := by
  unfold reportOf
  rw [Function.update_of_ne hne]

/-- **Noninterference, exactly.** Whatever everybody's files hold, those of one student have no influence on
    the others' announcements if and only if the template does not leave the door open. -/
theorem content_noninterference_iff (template : List UInt8) (dirs : Nat → CString) (sheet : Sheet) (y : Nat)
    (hy : y < sheet.height) :
    (∀ (files : Nat → CString → List UInt8) (c c' : CString → List UInt8),
      SameForOthers y (formatFeedback (Function.update files y c) template dirs sheet)
        (formatFeedback (Function.update files y c') template dirs sheet)) ↔
      ¬ Exposed template dirs sheet := by
  constructor
  · rintro hsame ⟨before, identifier, after, hcut, hnul, hlabels⟩
    obtain ⟨label, hlabel, hmissing⟩ := exists_missing_label sheet
    obtain ⟨hflag, -⟩ := hsame (fun _ _ => [0]) (fun _ => [0])
      (fun _ => attack (start.after before.flatten).depth label)
    rw [formatFeedback_of_cutsTo hcut, formatFeedback_of_cutsTo hcut] at hflag
    injection hflag with hflag
    -- with empty-looking files everybody succeeds
    have hok : announced (Function.update (fun _ _ => [0]) y (fun _ => [0])) dirs sheet
        (before.map Chunk.text ++ .file identifier :: after) = true := by
      unfold announced
      rw [List.all_eq_true]
      intro y' _
      apply labelsFound_nul hnul hlabels
      by_cases hne : y' = y
      · rw [hne, Function.update_self]
      · rw [Function.update_of_ne hne]
    have hfail : announced (Function.update (fun _ _ => [0]) y
        (fun _ => attack (start.after before.flatten).depth label)) dirs sheet
        (before.map Chunk.text ++ .file identifier :: after) = false := by
      unfold announced
      rw [List.all_eq_false]
      refine ⟨y, List.mem_range.mpr hy, ?_⟩
      rw [labelsFound_attack hnul hlabel hmissing (Function.update_self ..)]
      decide
    exact absurd (hok.symm.trans (hflag.trans hfail)) (by decide)
  · intro hclosed files c c'
    by_cases hcut : ∃ chunks, CutsTo template dirs sheet chunks
    · obtain ⟨chunks, hcut⟩ := hcut
      rw [formatFeedback_of_cutsTo hcut, formatFeedback_of_cutsTo hcut]
      have hflag : announced (Function.update files y c) dirs sheet chunks
          = announced (Function.update files y c') dirs sheet chunks := by
        unfold announced
        congr 1
        funext y'
        exact labelsFound_eq_of_not_exposed hcut hclosed _ _ y'
      rw [hflag]
      refine ⟨rfl, ?_⟩
      intro bodies bodies' hbodies hbodies' y' hne
      injection hbodies with hbodies
      injection hbodies' with hbodies'
      obtain ⟨hsuccess, hbodies⟩ := Prod.mk.inj hbodies
      obtain ⟨-, hbodies'⟩ := Prod.mk.inj hbodies'
      rw [if_pos hsuccess] at hbodies hbodies'
      rw [← hbodies, ← hbodies', List.getElem?_map, List.getElem?_map]
      by_cases hy' : y' < sheet.height
      · rw [List.getElem?_range hy']
        show some (issueBody _ _ _) = some (issueBody _ _ _)
        rw [reportOf_update hne, reportOf_update hne]
      · rw [List.getElem?_eq_none (by simpa using Nat.le_of_not_lt hy')]
        rfl
    · obtain ⟨fault, hfault⟩ := formatFeedback_of_not_cutsTo hcut (by omega)
      rw [hfault, hfault]
      exact ⟨rfl, fun bodies _ hbodies => absurd hbodies (by simp)⟩

/-- A sheet of two students. -/
def twoStudents : Sheet :=
  ⟨1, 2, [CString.lit "id"], [CString.lit "a", CString.lit "b"], rfl, rfl⟩

/-- A template whose unknown label stands before the file it pastes. -/
def unknownFirst : List UInt8 := (CString.lit "${bad} ${./d}").bytes

theorem unknownFirst_not_exposed : ¬ Exposed unknownFirst (fun _ => CString.lit "/hw1") twoStudents := by
  rintro ⟨before, identifier, after, ⟨hcut, -⟩, -, hlabels⟩
  have hparts : cut unknownFirst
      = some [.text (CString.lit "${bad}").bytes, .text [32], .file (CString.lit "./d")] := by rfl
  rw [hparts] at hcut
  -- the text before the file is the first two parts
  obtain rfl : before = [(CString.lit "${bad}").bytes, [32]] := by
    rcases before with _ | ⟨x, _ | ⟨y, _ | ⟨z, rest⟩⟩⟩ <;> simp at hcut
    obtain ⟨rfl, rfl, -⟩ := hcut
    rfl
  exact absurd (hlabels (CString.lit "bad").bytes (by decide)) (by decide)

theorem content_noninterference_plain :
    SameForOthers 0
      (formatFeedback (Function.update (fun _ _ => []) 0 (fun _ => (CString.lit "${worse}").bytes))
        unknownFirst (fun _ => CString.lit "/hw1") twoStudents)
      (formatFeedback (Function.update (fun _ _ => []) 0 (fun _ => []))
        unknownFirst (fun _ => CString.lit "/hw1") twoStudents) :=
  (content_noninterference_iff _ _ twoStudents 0 (by decide)).mpr unknownFirst_not_exposed _ _ _

/-- **One student aborts the announcement for all**: with `${./d}` in the template, a file that reads
    `${bad}` clears the success flag, an empty one does not. -/
theorem content_noninterference_counterexample :
    formatFeedback (Function.update (fun _ _ => []) 0 (fun _ => (CString.lit "${bad}").bytes))
        (CString.lit "${./d}").bytes (fun _ => CString.lit "/hw1") twoStudents = .ok (false, []) ∧
    formatFeedback (Function.update (fun _ _ => []) 0 (fun _ => []))
        (CString.lit "${./d}").bytes (fun _ => CString.lit "/hw1") twoStudents
      = .ok (true, [CString.empty, CString.empty]) := by decide

end Influence

end Hand2
