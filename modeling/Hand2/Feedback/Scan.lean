import Hand2.Feedback.Events
import Hand2.Library.Loops
import Mathlib.Data.List.GetD

/-!
# `Feedback.Scan` — each stage is what it does at the events

The loops of the two stages, which read an array at a position and hold a pointer into it, are folds over
the events of the text. `branch_cases` says once which of the four branches a position takes and what is
left of the text then; `pointed` is the text a pointer has behind it.
-/

namespace Hand2

open Scanner

/-! ## Positions and pointers -/

section Positions

variable {format : List UInt8} {i : Nat}

/-- The bytes between a pointer and the position `i`. -/
def pointed (format : List UInt8) (i : Nat) (pointer : Option Nat) : Option (List UInt8) :=
  pointer.map (fun at_ => (format.take i).drop at_)

/-- What a scanner can meet at a position, and what is behind it. -/
theorem branch_cases (hi : i < format.length) :
    (format.getD i 0 = dollar ∧ format.getD (i + 1) 0 = dollar ∧ i + 2 ≤ format.length ∧
      format.drop i = dollar :: dollar :: format.drop (i + 2)) ∨
    (format.getD i 0 = dollar ∧ format.getD (i + 1) 0 = openBrace ∧ i + 2 ≤ format.length ∧
      format.drop i = dollar :: openBrace :: format.drop (i + 2)) ∨
    (format.getD i 0 = closeBrace ∧ format.drop i = closeBrace :: format.drop (i + 1)) ∨
    (¬ (format.getD i 0 = dollar ∧ format.getD (i + 1) 0 = dollar) ∧
      ¬ (format.getD i 0 = dollar ∧ format.getD (i + 1) 0 = openBrace) ∧
      format.getD i 0 ≠ closeBrace ∧ format.drop i = format.getD i 0 :: format.drop (i + 1) ∧
      (format.getD i 0 = dollar → ∀ next ∈ (format.drop (i + 1)).head?, next ≠ dollar ∧ next ≠ openBrace)) := by
  have hdrop : ∀ k, k < format.length → format.drop k = format.getD k 0 :: format.drop (k + 1) := by
    intro k hk
    rw [List.drop_eq_getElem_cons hk, List.getD_eq_getElem _ _ hk]
  -- a pair does not end behind the terminator
  have hnext : ∀ b, b ≠ 0 → format.getD (i + 1) 0 = b → i + 1 < format.length := by
    intro b hb h
    by_contra hcon
    rw [List.getD_eq_default _ _ (Nat.le_of_not_lt hcon)] at h
    exact hb h.symm
  by_cases h1 : format.getD i 0 = dollar ∧ format.getD (i + 1) 0 = dollar
  · have hlt := hnext dollar (by decide) h1.2
    left
    refine ⟨h1.1, h1.2, hlt, ?_⟩
    rw [hdrop i hi, hdrop (i + 1) hlt, h1.1, h1.2]
  · by_cases h2 : format.getD i 0 = dollar ∧ format.getD (i + 1) 0 = openBrace
    · have hlt := hnext openBrace (by decide) h2.2
      right; left
      refine ⟨h2.1, h2.2, hlt, ?_⟩
      rw [hdrop i hi, hdrop (i + 1) hlt, h2.1, h2.2]
    · by_cases h3 : format.getD i 0 = closeBrace
      · right; right; left
        exact ⟨h3, by rw [hdrop i hi, h3]⟩
      · right; right; right
        refine ⟨h1, h2, h3, hdrop i hi, ?_⟩
        intro hc next hnext'
        have hhead : format.getD (i + 1) 0 = next := by
          rw [List.head?_drop] at hnext'
          rw [List.getD_eq_getElem?_getD, hnext']
          rfl
        exact ⟨fun hn => h1 ⟨hc, hhead.trans hn⟩, fun hn => h2 ⟨hc, hhead.trans hn⟩⟩

/-- Moving on by the bytes `w` extends what the pointer has behind it. -/
theorem pointed_extend {pointer : Option Nat} {w : List UInt8} (hp : ∀ at_ ∈ pointer, at_ ≤ i)
    (hi : i ≤ format.length) (hw : format.drop i = w ++ format.drop (i + w.length)) :
    pointed format (i + w.length) pointer = extend (pointed format i pointer) w := by
  cases pointer with
  | none     => rfl
  | some at_ =>
      have hle : at_ ≤ (format.take i).length := by
        rw [List.length_take]
        exact Nat.le_min.mpr ⟨hp at_ rfl, Nat.le_trans (hp at_ rfl) hi⟩
      have htake : format.take (i + w.length) = format.take i ++ w := by
        rw [List.take_add, hw, List.take_left']
        rfl
      show some ((format.take (i + w.length)).drop at_) = some ((format.take i).drop at_ ++ w)
      rw [htake, List.drop_append_of_le_length hle]

/-- A pointer set to the position has nothing behind it yet. -/
theorem pointed_here : pointed format i (some i) = some [] := by
  show some ((format.take i).drop i) = _
  rw [List.drop_eq_nil_of_le (List.length_take_le i format)]

section Opening

variable {pointer : Option Nat} {depth : Nat}

/-- The pointer at an opening, and what it has behind it then. -/
theorem pointed_open (hp : ∀ at_ ∈ pointer, at_ ≤ i) (hi : i ≤ format.length)
    (hw : format.drop i = dollar :: openBrace :: format.drop (i + 2)) :
    pointed format (i + 2) (if depth = 0 then some (i + 2) else pointer)
      = if depth = 0 then some [] else extend (pointed format i pointer) [dollar, openBrace] := by
  by_cases hd : depth = 0
  · rw [if_pos hd, if_pos hd, pointed_here]
  · rw [if_neg hd, if_neg hd]
    exact pointed_extend (w := [dollar, openBrace]) hp hi hw

theorem pointer_open_le (hp : ∀ at_ ∈ pointer, at_ ≤ i) :
    ∀ at_ ∈ (if depth = 0 then some (i + 2) else pointer), at_ ≤ i + 2 := by
  intro at_ h
  split at h
  · exact Nat.le_of_eq (Option.some.inj h).symm
  · exact Nat.le_add_right_of_le (hp at_ h)

theorem pointer_open_isSome (hd : depth ≠ 0 → pointer.isSome = true) :
    (if depth = 0 then some (i + 2) else pointer).isSome = true := by
  split
  · rfl
  · next h => exact hd h

end Opening

/-- The string a pointer denotes once the byte at the position is overwritten by a NUL. -/
theorem ofBytes_set_drop {at_ : Nat} (hi : i < format.length) (hat : at_ ≤ i) :
    CString.ofBytes ((format.set i 0).drop at_) = CString.ofBytes ((format.take i).drop at_) := by
  have hle : at_ ≤ (format.take i).length := by
    rw [List.length_take]
    omega
  rw [List.set_eq_take_append_cons_drop, if_pos hi, List.drop_append_of_le_length hle,
    CString.ofBytes_append_zero]

end Positions

/-! ## Writing one thing after another -/

/-- What two steps write, unless one of them ends the program. -/
def writeBoth (a b : Except Fault (List UInt8)) : Except Fault (List UInt8) := do
  let out ← a
  let rest ← b
  .ok (out ++ rest)

@[simp] theorem writeBoth_ok (a b : List UInt8) : writeBoth (.ok a) (.ok b) = .ok (a ++ b) := rfl

@[simp] theorem writeBoth_nil (b : Except Fault (List UInt8)) : writeBoth (.ok []) b = b := by
  cases b <;> rfl

@[simp] theorem writeBoth_nil_right (a : Except Fault (List UInt8)) : writeBoth a (.ok []) = a := by
  cases a with
  | error f => rfl
  | ok x => rw [writeBoth_ok, List.append_nil]

@[simp] theorem writeBoth_error (f : Fault) (b : Except Fault (List UInt8)) :
    writeBoth (.error f) b = .error f := rfl

theorem writeBoth_assoc (a b c : Except Fault (List UInt8)) :
    writeBoth (writeBoth a b) c = writeBoth a (writeBoth b c) := by
  cases a with
  | error f => rfl
  | ok x =>
      cases b with
      | error f => rfl
      | ok y =>
          cases c with
          | error f => rfl
          | ok z => simp [List.append_assoc]

/-- Both steps write what they should exactly when the first one starts right and the second one ends so. -/
theorem writeBoth_eq_ok {a b : Except Fault (List UInt8)} {out : List UInt8} :
    writeBoth a b = .ok out ↔ ∃ x y, a = .ok x ∧ b = .ok y ∧ out = x ++ y := by
  constructor
  · intro h
    cases a with
    | error f => exact absurd h (by simp)
    | ok x =>
        cases b with
        | error f => exact absurd h (by simp [writeBoth, bind, Except.bind])
        | ok y =>
            rw [writeBoth_ok] at h
            injection h with h
            exact ⟨x, y, rfl, rfl, h.symm⟩
  · rintro ⟨x, y, rfl, rfl, rfl⟩
    rfl

/-! ## Stage one -/

section Report

variable (files : Files) (dir : CString)

/-- What stage one writes at an event. -/
def reportEvent : Event → Except Fault (List UInt8)
  | .escape         => .ok [dollar, dollar]
  | .char c         => .ok [c]
  | .close name     => replaceIdentifier files dir (CString.ofBytes name)
  | .stray none     => .error .nullPointer
  | .stray (some w) => replaceIdentifier files dir (CString.ofBytes w)

/-- What it writes at a list of events. -/
def reportEvents : List Event → Except Fault (List UInt8)
  | []      => .ok []
  | e :: es => writeBoth (reportEvent files dir e) (reportEvents es)

variable {files dir}

@[simp] theorem reportEvents_nil : reportEvents files dir [] = .ok [] := rfl

theorem reportEvents_append (es fs : List Event) :
    reportEvents files dir (es ++ fs)
      = writeBoth (reportEvents files dir es) (reportEvents files dir fs) := by
  induction es with
  | nil => exact (writeBoth_nil _).symm
  | cons e es ih =>
      rw [List.cons_append, reportEvents, ih, reportEvents, writeBoth_assoc]

/-- A `}` behind which nothing is open writes what the identifier is replaced with. -/
theorem reportEvents_close {depth : Nat} (h : depth - 1 = 0) (identifier : List UInt8) :
    reportEvents files dir
        (if depth = 0 then [.stray (some identifier)] else if depth = 1 then [.close identifier] else [])
      = replaceIdentifier files dir (CString.ofBytes identifier) := by
  rcases (by omega : depth = 0 ∨ depth = 1) with h | h
  · rw [if_pos h]
    exact writeBoth_nil_right _
  · rw [if_neg (by omega), if_pos h]
    exact writeBoth_nil_right _

/-- **The loop of stage one** from a position writes what the events of the rest of the text ask for. -/
theorem reportLoop_eq (format : List UInt8) (fuel i depth : Nat) (identifier : Option Nat)
    (result : List UInt8) (hfuel : format.length ≤ i + fuel) (hi : i ≤ format.length)
    (hpointer : ∀ at_ ∈ identifier, at_ ≤ i) (hdepth : depth ≠ 0 → identifier.isSome = true) :
    reportLoop files dir format fuel i depth identifier result
      = writeBoth (.ok result) (reportEvents files dir
          (lex ⟨depth, pointed format i identifier, false⟩ (format.drop i))) := by
  induction fuel generalizing i depth identifier result with
  | zero =>
      have hend : format.drop i = [] := List.drop_eq_nil_of_le (by omega)
      rw [hend, reportLoop]
      simp
  | succ fuel ih =>
      rw [reportLoop]
      by_cases hlt : i < format.length
      · rw [if_pos hlt]
        simp only [Nat.add_zero]
        rcases branch_cases hlt with ⟨h0, h1, hle, hdrop⟩ | ⟨h0, h1, hle, hdrop⟩ | ⟨h0, hdrop⟩ |
          ⟨hn1, hn2, hn3, hdrop, hpair⟩
        · -- `$$`
          rw [if_pos ⟨h0, h1⟩, hdrop, lex_escape, ih (i + 2) depth identifier _ (by omega) hle
            (fun at_ h => Nat.le_add_right_of_le (hpointer at_ h)) hdepth,
            ← pointed_extend (w := [dollar, dollar]) hpointer hi hdrop, reportEvents, ← writeBoth_assoc]
          rfl
        · -- `${`
          rw [if_neg (fun h => absurd (h1.symm.trans h.2) (by decide)), if_pos ⟨h0, h1⟩, hdrop, lex_open,
            ih (i + 2) (depth + 1) _ _ (by omega) hle ?_ ?_, pointed_open hpointer hi hdrop]
          · exact pointer_open_le hpointer
          · exact fun _ => pointer_open_isSome hdepth
        · -- `}`
          rw [if_neg (fun h => absurd (h0.symm.trans h.1) (by decide)),
            if_neg (fun h => absurd (h0.symm.trans h.1) (by decide)), if_pos h0, hdrop, lex_close,
            ← pointed_extend (w := [closeBrace]) hpointer hi hdrop, reportEvents_append]
          have hnext : ∀ result' depth', (depth' ≠ 0 → identifier.isSome = true) →
              reportLoop files dir format fuel (i + 1) depth' identifier result'
                = writeBoth (.ok result') (reportEvents files dir
                    (lex ⟨depth', pointed format (i + 1) identifier, false⟩ (format.drop (i + 1)))) :=
            fun result' depth' hd => ih (i + 1) depth' identifier result' (by omega) hlt
              (fun at_ h => Nat.le_succ_of_le (hpointer at_ h)) hd
          by_cases hd : depth - 1 = 0
          · rw [if_pos hd]
            cases identifier with
            | none =>
                -- the pointer is still null, so nothing was ever opened
                have h0' : depth = 0 := by
                  by_contra hcon
                  exact absurd (hdepth hcon) (by simp)
                rw [if_pos h0']
                rfl
            | some at_ =>
                have hevent : reportEvents files dir
                    (if depth = 0 then [.stray (pointed format i (some at_))]
                      else if depth = 1 then [.close ((pointed format i (some at_)).getD [])] else [])
                    = replaceIdentifier files dir (CString.ofBytes ((format.take i).drop at_)) :=
                  reportEvents_close hd _
                rw [hevent]
                show (replaceIdentifier files dir (CString.ofBytes ((format.set i 0).drop at_)) >>= _)
                  = _
                rw [ofBytes_set_drop hlt (hpointer at_ rfl)]
                cases replaceIdentifier files dir (CString.ofBytes ((format.take i).drop at_)) with
                | error f => rfl
                | ok out =>
                    show reportLoop files dir format fuel (i + 1) (depth - 1) (some at_)
                      (result ++ out) = _
                    rw [hnext _ _ (fun _ => rfl), ← writeBoth_assoc]
                    rfl
          · rw [if_neg hd, hnext _ _ (fun _ => hdepth (by omega)), if_neg (by omega), if_neg (by omega),
              reportEvents_nil, writeBoth_nil]
            rfl
        · -- any other byte
          rw [if_neg hn1, if_neg hn2, if_neg hn3, hdrop, lex_char depth _ _ hn3 hpair,
            ← pointed_extend (w := [format.getD i 0]) hpointer hi hdrop, reportEvents_append]
          have hnext : ∀ result', reportLoop files dir format fuel (i + 1) depth identifier result'
                = writeBoth (.ok result') (reportEvents files dir
                    (lex ⟨depth, pointed format (i + 1) identifier, false⟩ (format.drop (i + 1)))) :=
            fun result' => ih (i + 1) depth identifier result' (by omega) hlt
              (fun at_ h => Nat.le_succ_of_le (hpointer at_ h)) hdepth
          by_cases hd : depth = 0
          · rw [if_pos hd, if_pos hd, hnext, ← writeBoth_assoc]
            rfl
          · rw [if_neg hd, if_neg hd, hnext]
            simp
      · have hend : format.drop i = [] := List.drop_eq_nil_of_le (by omega)
        rw [if_neg hlt, hend]
        simp

/-- **Stage one** writes what the events of the template ask for. -/
theorem formatReportByFileReplacement_eq (format : List UInt8) :
    formatReportByFileReplacement files format dir
      = reportEvents files dir (start.lex format) := by
  unfold formatReportByFileReplacement
  rw [reportLoop_eq format format.length 0 0 none [] (by omega) (Nat.zero_le _) (by simp) (by simp),
    writeBoth_nil]
  rfl

end Report

/-! ## Stage two -/

section Issue

variable (sheet : Sheet) (y : Nat)

/-- What stage two writes at an event. -/
def issueEvent : Event → List UInt8
  | .escape     => [dollar]
  | .char c     => [c]
  | .close name => ((sheet.lookup y (CString.ofBytes name)).getD CString.empty).bytes
  | .stray _    => []

/-- The event leaves the success flag alone: its label, if it has one, is in the sheet. -/
def labelFound : Event → Bool
  | .close name => (sheet.lookup y (CString.ofBytes name)).isSome
  | _           => true

variable {sheet y}

/-- **The loop of stage two** from a position writes what the events of the rest of the report ask for, and
    succeeds as long as their labels are found. -/
theorem issueLoop_eq (format : List UInt8) (fuel i depth : Nat) (label : Option Nat)
    (buffer : List UInt8) (success : Bool) (hy : y < sheet.height) (hnul : (0 : UInt8) ∉ format)
    (hfuel : format.length ≤ i + fuel) (hi : i ≤ format.length)
    (hpointer : ∀ at_ ∈ label, at_ ≤ i) (hdepth : depth ≠ 0 → label.isSome = true) :
    issueLoop sheet y format fuel i depth label buffer success
      = .ok (buffer ++ (lex ⟨depth, pointed format i label, false⟩ (format.drop i)).flatMap (issueEvent sheet y),
          success && (lex ⟨depth, pointed format i label, false⟩ (format.drop i)).all (labelFound sheet y)) := by
  induction fuel generalizing i depth label buffer success with
  | zero =>
      have hend : format.drop i = [] := List.drop_eq_nil_of_le (by omega)
      rw [hend]
      simp [issueLoop]
  | succ fuel ih =>
      unfold issueLoop
      simp only [Nat.add_zero]
      by_cases hlt : i < format.length
      · have hne : format.getD i 0 ≠ 0 := by
          rw [List.getD_eq_getElem _ _ hlt]
          exact fun h0 => hnul (h0 ▸ List.getElem_mem hlt)
        rw [if_pos hne]
        rcases branch_cases hlt with ⟨h0, h1, hle, hdrop⟩ | ⟨h0, h1, hle, hdrop⟩ | ⟨h0, hdrop⟩ |
          ⟨hn1, hn2, hn3, hdrop, hpair⟩
        · -- `$$`
          rw [if_pos ⟨h0, h1⟩, hdrop, lex_escape, ih (i + 2) depth label _ _ (by omega) hle
            (fun at_ h => Nat.le_add_right_of_le (hpointer at_ h)) hdepth,
            ← pointed_extend (w := [dollar, dollar]) hpointer hi hdrop]
          simp [issueEvent, labelFound]
        · -- `${`
          rw [if_neg (fun h => absurd (h1.symm.trans h.2) (by decide)), if_pos ⟨h0, h1⟩, hdrop, lex_open,
            ih (i + 2) (depth + 1) _ _ _ (by omega) hle ?_ ?_, pointed_open hpointer hi hdrop]
          · exact pointer_open_le hpointer
          · exact fun _ => pointer_open_isSome hdepth
        · -- `}`
          rw [if_neg (fun h => absurd (h0.symm.trans h.1) (by decide)),
            if_neg (fun h => absurd (h0.symm.trans h.1) (by decide)), if_pos h0, hdrop, lex_close,
            ← pointed_extend (w := [closeBrace]) hpointer hi hdrop]
          have hnext := fun buffer' success' hd => ih (i + 1) (depth - 1) label buffer' success' (by omega) hlt
              (fun at_ h => Nat.le_succ_of_le (hpointer at_ h)) hd
          by_cases hd : depth = 1
          · rw [if_pos hd, if_neg (by omega), if_pos hd]
            cases label with
            | none => exact absurd (hdepth (by omega)) (by simp)
            | some at_ =>
                have hlookup : sheet.lookup y (CString.ofBytes ((format.take i).drop at_))
                    = (findLabel sheet (CString.ofBytes ((format.set i 0).drop at_))).map
                        (fun x => sheet.cell x y) := by
                  rw [ofBytes_set_drop hlt (hpointer at_ rfl), findLabel_eq_idxOf?]
                  rfl
                simp only [List.cons_append, List.nil_append, List.flatMap_cons, List.all_cons, issueEvent,
                  labelFound, pointed, Option.map_some, Option.getD_some, hlookup]
                cases hfind : findLabel sheet (CString.ofBytes ((format.set i 0).drop at_)) with
                | none =>
                    rw [hnext _ _ (fun _ => rfl)]
                    simp [pointed]
                | some x =>
                    show (getValue sheet x y >>= fun replacement => issueLoop sheet y format fuel (i + 1)
                      (depth - 1) (some at_) (buffer ++ replacement.bytes) success) = _
                    rw [getValue_ok (findLabel_lt hfind) hy]
                    show issueLoop sheet y format fuel (i + 1) (depth - 1) (some at_)
                      (buffer ++ (sheet.cell x y).bytes) success = _
                    rw [hnext _ _ (fun _ => rfl)]
                    simp [pointed, List.append_assoc]
          · rw [if_neg hd, hnext _ _ (fun _ => hdepth (by omega))]
            by_cases hz : depth = 0
            · rw [if_pos hz]
              simp [issueEvent, labelFound]
            · rw [if_neg hz, if_neg hd]
              rfl
        · -- any other byte
          rw [if_neg hn1, if_neg hn2, if_neg hn3, hdrop, lex_char depth _ _ hn3 hpair,
            ← pointed_extend (w := [format.getD i 0]) hpointer hi hdrop]
          have hnext := fun buffer' => ih (i + 1) depth label buffer' success (by omega) hlt
              (fun at_ h => Nat.le_succ_of_le (hpointer at_ h)) hdepth
          by_cases hd : depth = 0
          · rw [if_pos hd, if_pos hd, hnext]
            simp [issueEvent, labelFound]
          · rw [if_neg hd, if_neg hd, hnext]
            rfl
      · have hend : format.drop i = [] := List.drop_eq_nil_of_le (by omega)
        have hterm : format.getD i 0 = 0 := List.getD_eq_default _ _ (Nat.le_of_not_lt hlt)
        rw [if_neg (fun h => h hterm), hend]
        simp

variable (sheet y) in
/-- The issue body stage two makes of a report. -/
def issueBody (report : CString) : CString :=
  CString.ofBytes ((start.lex report.bytes).flatMap (issueEvent sheet y))

variable (sheet y) in
/-- All labels of the report are found. -/
def labelsFound (report : CString) : Bool := (start.lex report.bytes).all (labelFound sheet y)

/-- **Stage two** succeeds exactly when the labels of all reports are found, and then gives each report its
    issue body. -/
theorem formatFeedbackIssues_eq {format : List CString} (hlen : format.length = sheet.height) :
    formatFeedbackIssues format sheet
      = .ok ((List.range sheet.height).all (fun y => labelsFound sheet y (format.getD y CString.empty)),
          if (List.range sheet.height).all (fun y => labelsFound sheet y (format.getD y CString.empty)) then
            (List.range sheet.height).map (fun y => issueBody sheet y (format.getD y CString.empty))
          else []) := by
  have hrow : ∀ (s : Bool × List CString) (y : Nat), y < sheet.height →
      (do
        let row ← issueLoop sheet y (format.getD y CString.empty).bytes
          (format.getD y CString.empty).bytes.length 0 0 none [] s.1
        Except.ok (row.2, s.2 ++ [CString.ofBytes row.1]) : Except Fault (Bool × List CString))
      = .ok (s.1 && labelsFound sheet y (format.getD y CString.empty),
          s.2 ++ [issueBody sheet y (format.getD y CString.empty)]) := by
    intro s y hy
    rw [issueLoop_eq _ _ 0 0 none [] s.1 hy (CString.noNul _) (by omega) (Nat.zero_le _) (by simp) (by simp)]
    rfl
  have hrows : ∀ n, n ≤ sheet.height →
      (List.range n).foldlM (fun (s : Bool × List CString) y => do
          let row ← issueLoop sheet y (format.getD y CString.empty).bytes
            (format.getD y CString.empty).bytes.length 0 0 none [] s.1
          Except.ok (row.2, s.2 ++ [CString.ofBytes row.1])) (true, [])
        = (.ok ((List.range n).all (fun y => labelsFound sheet y (format.getD y CString.empty)),
            (List.range n).map (fun y => issueBody sheet y (format.getD y CString.empty)))
            : Except Fault (Bool × List CString)) := by
    intro n
    induction n with
    | zero => intro _; rfl
    | succ n ih =>
        intro hn
        rw [Loops.foldlM_range_succ, ih (by omega), List.range_succ, List.all_append, List.map_append]
        show (do let row ← _; Except.ok _) = _
        rw [hrow _ n (by omega)]
        simp
  unfold formatFeedbackIssues
  rw [if_neg (fun h => h hlen)]
  show ((List.range sheet.height).foldlM _ _ >>= _) = _
  rw [hrows sheet.height (Nat.le_refl _)]
  rfl

end Issue

end Hand2
