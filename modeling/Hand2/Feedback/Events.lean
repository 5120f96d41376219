import Hand2.Feedback.Issues

/-!
# `Feedback.Events` — what both scanners see in a text

The two stages move through a text in the same way: they skip pairs behind a `$`, count open `${` and clamp
the counter at zero. `lex` is that movement alone, one byte at a time, as a list of events; each stage then
is what it does at an event. A scanner looks one byte ahead of a `$`; here the `$` is held back until the
next byte is known (`pending`), so a text can be read in parts (`lex_append`).

`since` is what a pointer set at the last opening outside any placeholder now points at: the bytes read
since.
-/

namespace Hand2

/-- What a scanner comes across. -/
inductive Event where
  /-- `$$`, also within a placeholder. -/
  | escape
  /-- Any other byte outside all placeholders, but `}`. -/
  | char (c : UInt8)
  /-- The `}` of a placeholder opened outside any other, and the text since. -/
  | close (name : List UInt8)
  /-- A `}` outside all placeholders, and the text since the last opening. -/
  | stray (since : Option (List UInt8))
  deriving DecidableEq

/-- The state of a scanner between two bytes. -/
structure Scanner where
  depth : Nat
  since : Option (List UInt8)
  pending : Bool
  deriving DecidableEq

namespace Scanner

/-- At the start of a text. -/
def start : Scanner := ⟨0, none, false⟩

/-- The text since the last opening, with the bytes `w` behind it. -/
def extend (since : Option (List UInt8)) (w : List UInt8) : Option (List UInt8) := since.map (· ++ w)

@[simp] theorem extend_none (w : List UInt8) : extend none w = none := rfl
@[simp] theorem extend_some (v w : List UInt8) : extend (some v) w = some (v ++ w) := rfl
@[simp] theorem extend_extend (since : Option (List UInt8)) (v w : List UInt8) :
    extend (extend since v) w = extend since (v ++ w) := by
  cases since <;> simp

/-- A byte that is not part of a pair. -/
def plain (depth : Nat) (since : Option (List UInt8)) (c : UInt8) : Scanner × List Event :=
  if c = closeBrace then
    (⟨depth - 1, extend since [c], false⟩,
     if depth = 0 then [.stray since] else if depth = 1 then [.close (since.getD [])] else [])
  else (⟨depth, extend since [c], false⟩, if depth = 0 then [.char c] else [])

/-- The events of a `$` that turns out not to start a pair. -/
def flush (s : Scanner) : List Event := if s.pending ∧ s.depth = 0 then [.char dollar] else []

/-- One byte. -/
def step (s : Scanner) (c : UInt8) : Scanner × List Event :=
  if s.pending then
    if c = dollar then (⟨s.depth, extend s.since [c], false⟩, [.escape])
    else if c = openBrace then
      (⟨s.depth + 1, if s.depth = 0 then some [] else extend s.since [c], false⟩, [])
    else
      let out := plain s.depth s.since c
      (out.1, s.flush ++ out.2)
  else if c = dollar then (⟨s.depth, extend s.since [c], true⟩, [])
  else plain s.depth s.since c

/-- The state behind a text. -/
def after (s : Scanner) : List UInt8 → Scanner
  | []        => s
  | c :: rest => (s.step c).1.after rest

/-- The events of a text that goes on. -/
def emitted (s : Scanner) : List UInt8 → List Event
  | []        => []
  | c :: rest => (s.step c).2 ++ (s.step c).1.emitted rest

/-- The events of a text that ends. -/
def lex (s : Scanner) : List UInt8 → List Event
  | []        => s.flush
  | c :: rest => (s.step c).2 ++ (s.step c).1.lex rest

/-- A text is read in parts. -/
theorem lex_append (s : Scanner) (a b : List UInt8) :
    s.lex (a ++ b) = s.emitted a ++ (s.after a).lex b := by
  induction a generalizing s with
  | nil => rfl
  | cons c a ih =>
      show (s.step c).2 ++ (s.step c).1.lex (a ++ b) = _
      rw [ih, ← List.append_assoc]
      rfl

/-! ## The branches of the two scanners -/

section Branches

variable (depth : Nat) (since : Option (List UInt8)) (rest : List UInt8)

@[simp] theorem lex_nil : lex ⟨depth, since, false⟩ [] = [] := rfl

theorem lex_escape :
    lex ⟨depth, since, false⟩ (dollar :: dollar :: rest)
      = .escape :: lex ⟨depth, extend since [dollar, dollar], false⟩ rest := by
  simp [lex, step]

theorem lex_open :
    lex ⟨depth, since, false⟩ (dollar :: openBrace :: rest)
      = lex ⟨depth + 1, if depth = 0 then some [] else extend since [dollar, openBrace], false⟩ rest := by
  have hne : ¬ openBrace = dollar := by decide
  simp [lex, step, hne]

theorem lex_close :
    lex ⟨depth, since, false⟩ (closeBrace :: rest)
      = (if depth = 0 then [.stray since] else if depth = 1 then [.close (since.getD [])] else [])
        ++ lex ⟨depth - 1, extend since [closeBrace], false⟩ rest := by
  have hne : ¬ closeBrace = dollar := by decide
  simp [lex, step, plain, hne]

/-- Any other byte, a `$` that starts no pair included. -/
theorem lex_char {c : UInt8} (hclose : c ≠ closeBrace)
    (hpair : c = dollar → ∀ next ∈ rest.head?, next ≠ dollar ∧ next ≠ openBrace) :
    lex ⟨depth, since, false⟩ (c :: rest)
      = (if depth = 0 then [.char c] else []) ++ lex ⟨depth, extend since [c], false⟩ rest := by
  by_cases hc : c = dollar
  · subst hc
    cases rest with
    | nil => simp [lex, step, flush]
    | cons next rest =>
        obtain ⟨hn1, hn2⟩ := hpair rfl next rfl
        simp [lex, step, flush, hn1, hn2]
  · simp [lex, step, plain, hc, hclose]

end Branches

end Scanner

end Hand2
