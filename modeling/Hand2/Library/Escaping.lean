import Mathlib.Data.List.Induction
import Mathlib.Data.List.TakeWhile
import Mathlib.Algebra.Ring.Parity

/-!
# `Library.Escaping` — texts between quotes

A text between two quotes is read up to the first quote that is not escaped. Where that is can be told in two
ways: by the scanner, which remembers whether the item before was an open escape, and by the text, where a quote is
escaped when the run of escape signs in front of it is odd. Both are the same (`behindFrom_eq`), so a scanner stops at
a given quote exactly when every quote before it is escaped and no escape is left open (`scan_eq_some_iff`).

A `Code` says which items are written as an escape sign and a letter. As long as it escapes the quote and the escape
sign, a text written with it cannot close its quotes (`scan_escape`), and reading the letters back gives the text
(`unescape_escape`).
-/

namespace Escaping

variable {α : Type} [DecidableEq α]

/-- The number of escape signs `cs` ends with. -/
def signsAtEnd (sign : α) (cs : List α) : Nat := (cs.reverse.takeWhile (· = sign)).length

/-- The state of a scanner behind `cs`: the next item stands behind an open escape sign. -/
def behindFrom (sign : α) (escaped : Bool) (cs : List α) : Bool :=
  cs.foldl (fun escaped c => !escaped && c = sign) escaped

/-- A scanner in front of `cs`, `escaped` if an escape is open: the items up to the closing quote, and those behind
    it. -/
def scanFrom (quote sign : α) : Bool → List α → Option (List α × List α)
  | _,     []      => none
  | true,  c :: cs => (scanFrom quote sign false cs).map fun (body, rest) => (c :: body, rest)
  | false, c :: cs =>
      if c = quote then some ([], cs)
      else (scanFrom quote sign (c = sign) cs).map fun (body, rest) => (c :: body, rest)

/-- A scanner behind the opening quote. -/
def scan (quote sign : α) (cs : List α) : Option (List α × List α) := scanFrom quote sign false cs

/-! ## Runs of escape signs -/

section Signs

variable {sign : α}

theorem signsAtEnd_append (cs : List α) (c : α) :
    signsAtEnd sign (cs ++ [c]) = if c = sign then signsAtEnd sign cs + 1 else 0 := by
  unfold signsAtEnd
  rw [List.reverse_append, List.reverse_singleton, List.singleton_append, List.takeWhile_cons]
  by_cases hc : c = sign
  · simp [hc]
  · simp [hc]

/-- An escape is open behind an odd run of escape signs. -/
theorem behindFrom_eq (cs : List α) : behindFrom sign false cs = decide (Odd (signsAtEnd sign cs)) := by
  induction cs using List.reverseRecOn with
  | nil => rfl
  | append_singleton cs c ih =>
      have hstep : behindFrom sign false (cs ++ [c]) = (!behindFrom sign false cs && decide (c = sign)) := by
        rw [behindFrom, List.foldl_append]
        rfl
      rw [hstep, ih, signsAtEnd_append]
      by_cases hc : c = sign
      · simp [hc, Nat.even_add_one, ← Nat.not_even_iff_odd]
      · simp [hc]

end Signs

/-! ## Where the scanner stops -/

section Scan

variable {quote sign : α}

/-- From a state of the scanner on, every quote is escaped and no escape is left open. -/
def ClosedFrom (quote sign : α) : Bool → List α → Prop
  | escaped, []      => escaped = false
  | escaped, c :: cs => (c = quote → escaped = true) ∧ ClosedFrom quote sign (!escaped && c = sign) cs

/-- The scanner stops at the quote behind a closed text, and nowhere else. -/
theorem scanFrom_eq_some_iff {escaped : Bool} {cs body rest : List α} (hne : quote ≠ sign) :
    scanFrom quote sign escaped cs = some (body, rest) ↔
      cs = body ++ quote :: rest ∧ ClosedFrom quote sign escaped body := by
  induction cs generalizing escaped body with
  | nil => simp [scanFrom]
  | cons c cs ih =>
      cases escaped with
      | true =>
          cases body with
          | nil => simp [scanFrom, ClosedFrom]
          | cons b body =>
              simp only [scanFrom, Option.map_eq_some_iff, Prod.exists, Prod.mk.injEq, List.cons.injEq, ClosedFrom,
                List.cons_append]
              constructor
              · rintro ⟨body', rest', hscan, ⟨rfl, rfl⟩, rfl⟩
                obtain ⟨hcs, hclosed⟩ := ih.mp hscan
                exact ⟨⟨rfl, hcs⟩, fun _ => trivial, hclosed⟩
              · rintro ⟨⟨rfl, hcs⟩, -, hclosed⟩
                exact ⟨body, rest, ih.mpr ⟨hcs, hclosed⟩, ⟨rfl, rfl⟩, rfl⟩
      | false =>
          cases body with
          | nil =>
              by_cases hc : c = quote
              · simp [scanFrom, ClosedFrom, hc]
              · simp [scanFrom, hc]
          | cons b body =>
              by_cases hc : c = quote
              · subst hc
                simp only [scanFrom, ClosedFrom, List.cons_append, List.cons.injEq]
                constructor
                · intro h
                  cases h
                · rintro ⟨⟨hb, -⟩, hquote, -⟩
                  exact absurd (hquote hb.symm) (by simp)
              · simp only [scanFrom, if_neg hc, Option.map_eq_some_iff, Prod.exists, Prod.mk.injEq, List.cons.injEq,
                  ClosedFrom, List.cons_append]
                constructor
                · rintro ⟨body', rest', hscan, ⟨rfl, rfl⟩, rfl⟩
                  obtain ⟨hcs, hclosed⟩ := ih.mp hscan
                  exact ⟨⟨rfl, hcs⟩, fun h => absurd h hc, by simpa using hclosed⟩
                · rintro ⟨⟨rfl, hcs⟩, -, hclosed⟩
                  exact ⟨body, rest, ih.mpr ⟨hcs, by simpa using hclosed⟩, ⟨rfl, rfl⟩, rfl⟩

/-- A closed text, told by its quotes and its end. -/
theorem closedFrom_iff {escaped : Bool} {cs : List α} :
    ClosedFrom quote sign escaped cs ↔
      (∀ pre post, cs = pre ++ quote :: post → behindFrom sign escaped pre = true) ∧
        behindFrom sign escaped cs = false := by
  induction cs generalizing escaped with
  | nil => simp [ClosedFrom, behindFrom]
  | cons c cs ih =>
      rw [ClosedFrom, ih]
      constructor
      · rintro ⟨hc, hquotes, hend⟩
        refine ⟨?_, hend⟩
        intro pre post hsplit
        cases pre with
        | nil => exact hc (List.cons.inj hsplit).1
        | cons p pre =>
            obtain ⟨rfl, hcs⟩ := List.cons.inj hsplit
            exact hquotes pre post hcs
      · rintro ⟨hquotes, hend⟩
        refine ⟨?_, ?_, hend⟩
        · rintro rfl
          exact hquotes [] cs rfl
        · rintro pre post rfl
          exact hquotes (c :: pre) post rfl

/-- Every quote of `cs` is escaped and no escape is left open. -/
def Closed (quote sign : α) (cs : List α) : Prop :=
  (∀ pre post, cs = pre ++ quote :: post → Odd (signsAtEnd sign pre)) ∧ Even (signsAtEnd sign cs)

theorem closed_iff {cs : List α} : Closed quote sign cs ↔ ClosedFrom quote sign false cs := by
  rw [closedFrom_iff]
  simp [Closed, behindFrom_eq]

/-- **The scanner** stops at the quote behind a closed text, and nowhere else. -/
theorem scan_eq_some_iff {cs body rest : List α} (hne : quote ≠ sign) :
    scan quote sign cs = some (body, rest) ↔ cs = body ++ quote :: rest ∧ Closed quote sign body := by
  rw [scan, scanFrom_eq_some_iff hne, closed_iff]

end Scan

/-! ## Writing a text and reading it back -/

/-- A way to write items behind an escape sign. The quote and the sign are always written so, and a letter says
    which item it stands for. -/
structure Code (α : Type) where
  quote : α
  sign : α
  /-- The letter an item is written as. -/
  letter : α → Option α
  /-- The item a letter stands for. -/
  value : α → Option α
  quote_ne_sign : quote ≠ sign
  letter_quote : letter quote ≠ none
  letter_sign : letter sign ≠ none
  value_letter : ∀ {c e}, letter c = some e → value e = some c

namespace Code

variable (code : Code α)

/-- What an item is written as. -/
def escapeItem (c : α) : List α :=
  match code.letter c with
  | some e => [code.sign, e]
  | none   => [c]

/-- What a text is written as. -/
def escape (cs : List α) : List α := cs.flatMap code.escapeItem

/-- Read a written text, `escaped` if a sign was just read: a sign and its letter stand for an item, every other item
    for itself. -/
def unescapeFrom : Bool → List α → Option (List α)
  | false, []      => some []
  | true,  []      => none
  | false, c :: cs => if c = code.sign then unescapeFrom true cs else (unescapeFrom false cs).map (c :: ·)
  | true,  e :: cs => (code.value e).bind fun c => (unescapeFrom false cs).map (c :: ·)

/-- Read a written text. -/
def unescape (cs : List α) : Option (List α) := code.unescapeFrom false cs

variable {code}

omit [DecidableEq α] in
/-- An item that is copied is neither the quote nor the sign. -/
theorem ne_of_letter_eq_none {c : α} (h : code.letter c = none) : c ≠ code.quote ∧ c ≠ code.sign := by
  constructor
  · rintro rfl
    exact code.letter_quote h
  · rintro rfl
    exact code.letter_sign h

/-- A written text is closed. -/
theorem closed_escape (cs : List α) : Closed code.quote code.sign (code.escape cs) := by
  rw [closed_iff]
  induction cs with
  | nil => rfl
  | cons c cs ih =>
      show ClosedFrom _ _ _ (code.escapeItem c ++ code.escape cs)
      unfold escapeItem
      cases hletter : code.letter c with
      | some e =>
          refine ⟨fun h => absurd h.symm code.quote_ne_sign, ?_⟩
          simpa [ClosedFrom] using ih
      | none =>
          obtain ⟨hquote, hsign⟩ := ne_of_letter_eq_none hletter
          exact ⟨fun h => absurd h hquote, by simpa [hsign] using ih⟩

/-- **No way out**: whatever stands behind the closing quote, a scanner stops there. -/
theorem scan_escape (cs rest : List α) :
    scan code.quote code.sign (code.escape cs ++ code.quote :: rest) = some (code.escape cs, rest) :=
  (scan_eq_some_iff code.quote_ne_sign).mpr ⟨rfl, closed_escape cs⟩

/-- **The way back.** -/
theorem unescape_escape (cs : List α) : code.unescape (code.escape cs) = some cs := by
  unfold unescape
  induction cs with
  | nil => rfl
  | cons c cs ih =>
      show code.unescapeFrom false (code.escapeItem c ++ code.escape cs) = _
      unfold escapeItem
      cases hletter : code.letter c with
      | some e =>
          show code.unescapeFrom false (code.sign :: e :: code.escape cs) = _
          simp [unescapeFrom, code.value_letter hletter, ih]
      | none =>
          show code.unescapeFrom false (c :: code.escape cs) = _
          simp [unescapeFrom, (ne_of_letter_eq_none hletter).2, ih]

end Code

end Escaping
