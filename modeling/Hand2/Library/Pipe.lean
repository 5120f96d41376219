import Hand2.Library.Runs

/-!
# `Library.Pipe` — a pipe and the one who reads it

A pipe holds what was written into it and not yet taken out; it ends when no one can write any more and it is empty.
Its reader collects what it takes out and stops at the end, or when a read fails. Writers and the reader act in any
order (`Reader.step`). What has been collected and what is still inside are together what was written
(`readerInv_run`), so a reader that stopped without a failure has all of it (`ReaderInv.complete`).
-/

namespace Pipe

variable {α : Type}

/-- A pipe: what has been taken out, what is inside, and if someone can still write. -/
structure Stream (α : Type) where
  taken : List α
  inside : List α
  isOpen : Bool
  deriving DecidableEq

namespace Stream

/-- A new pipe. -/
def fresh : Stream α := ⟨[], [], true⟩

/-- All that was written. -/
def written (p : Stream α) : List α := p.taken ++ p.inside

/-- A read returns at once. -/
def readable (p : Stream α) : Bool := !p.inside.isEmpty || !p.isOpen

/-- A read returns nothing, now and from now on. -/
def AtEnd (p : Stream α) : Prop := p.inside = [] ∧ p.isOpen = false

instance [DecidableEq α] (p : Stream α) : Decidable p.AtEnd := inferInstanceAs (Decidable (_ ∧ _))

/-- `items` come in. -/
def put (p : Stream α) (items : List α) : Stream α := { p with inside := p.inside ++ items }

/-- No one can write any more. -/
def close (p : Stream α) : Stream α := { p with isOpen := false }

/-- `count` items go out. -/
def take (p : Stream α) (count : Nat) : Stream α :=
  { p with taken := p.taken ++ p.inside.take count, inside := p.inside.drop count }

@[simp] theorem written_fresh : (fresh : Stream α).written = [] := rfl

@[simp] theorem written_put (p : Stream α) (items : List α) : (p.put items).written = p.written ++ items := by
  simp [put, written]

@[simp] theorem written_close (p : Stream α) : p.close.written = p.written := rfl

@[simp] theorem written_take (p : Stream α) (count : Nat) : (p.take count).written = p.written := by
  simp [take, written]

theorem readable_iff {p : Stream α} : p.readable = true ↔ p.inside ≠ [] ∨ p.isOpen = false := by
  simp [readable]

/-- What is readable stays so, whatever is written. -/
theorem readable_put {p : Stream α} (items : List α) (h : p.readable = true) : (p.put items).readable = true := by
  rw [readable_iff] at h ⊢
  rcases h with h | h
  · exact .inl (by simp [put, h])
  · exact .inr h

theorem readable_close (p : Stream α) : p.close.readable = true := by
  simp [readable, close]

end Stream

/-- A pipe with its reader: what it collected, and if it goes on. -/
structure Reader (α : Type) where
  stream : Stream α
  content : List α
  more : Bool
  deriving DecidableEq

/-- Before anything was read. -/
def Reader.start : Reader α := ⟨Stream.fresh, [], true⟩

/-- What can happen at a pipe. -/
inductive Action (α : Type) where
  | put (items : List α)
  | close
  /-- A read that returns `count` items; none at the end. -/
  | read (count : Nat)
  /-- A read that fails. -/
  | fail
  deriving DecidableEq

/-- A read can return `count` items. -/
def Stream.Returns (p : Stream α) (count : Nat) : Prop :=
  (0 < count ∧ count ≤ p.inside.length) ∨ (count = 0 ∧ p.AtEnd)

instance [DecidableEq α] (p : Stream α) (count : Nat) : Decidable (p.Returns count) :=
  inferInstanceAs (Decidable ((_ ∧ _) ∨ (_ ∧ _)))

/-- What is readable can be read, if only an item at a time. -/
theorem Stream.exists_returns {p : Stream α} (h : p.readable = true) : ∃ count ≤ 1, p.Returns count := by
  by_cases hinside : p.inside = []
  · have hopen := (Stream.readable_iff.mp h).resolve_left (not_not.mpr hinside)
    exact ⟨0, Nat.zero_le 1, .inr ⟨rfl, hinside, hopen⟩⟩
  · exact ⟨1, Nat.le_refl 1, .inl ⟨Nat.one_pos, List.length_pos_iff.mpr hinside⟩⟩

/-- A step at a pipe. -/
def Reader.step [DecidableEq α] (r : Reader α) : Action α → Option (Reader α)
  | .put items  => if r.stream.isOpen then some { r with stream := r.stream.put items } else none
  | .close      => if r.stream.isOpen then some { r with stream := r.stream.close } else none
  | .read count =>
      if r.more ∧ r.stream.Returns count then
        some ⟨r.stream.take count, r.content ++ r.stream.inside.take count, decide (0 < count)⟩
      else none
  | .fail       => if r.more then some { r with more := false } else none

/-- What was written by the actions. -/
def writtenBy : List (Action α) → List α
  | []              => []
  | .put items :: l => items ++ writtenBy l
  | _ :: l          => writtenBy l

theorem writtenBy_append (l l' : List (Action α)) : writtenBy (l ++ l') = writtenBy l ++ writtenBy l' := by
  induction l with
  | nil => rfl
  | cons a l ih => cases a <;> simp [writtenBy, ih]

section Cases

variable [DecidableEq α] {r r' : Reader α}

theorem put_cases {items : List α} (h : r.step (.put items) = some r') :
    r.stream.isOpen = true ∧ r' = { r with stream := r.stream.put items } := by
  obtain ⟨hopen, h⟩ := Option.ite_none_right_eq_some.mp h
  exact ⟨hopen, (Option.some.inj h).symm⟩

theorem close_cases (h : r.step .close = some r') :
    r.stream.isOpen = true ∧ r' = { r with stream := r.stream.close } := by
  obtain ⟨hopen, h⟩ := Option.ite_none_right_eq_some.mp h
  exact ⟨hopen, (Option.some.inj h).symm⟩

theorem read_cases {count : Nat} (h : r.step (.read count) = some r') :
    r.more = true ∧ r.stream.Returns count ∧
      r' = ⟨r.stream.take count, r.content ++ r.stream.inside.take count, decide (0 < count)⟩ := by
  obtain ⟨⟨hmore, hreturns⟩, h⟩ := Option.ite_none_right_eq_some.mp h
  exact ⟨hmore, hreturns, (Option.some.inj h).symm⟩

theorem fail_cases (h : r.step .fail = some r') : r.more = true ∧ r' = { r with more := false } := by
  obtain ⟨hmore, h⟩ := Option.ite_none_right_eq_some.mp h
  exact ⟨hmore, (Option.some.inj h).symm⟩

end Cases

/-- What is readable stays so until it is read. -/
theorem readable_of_step [DecidableEq α] {r r' : Reader α} {a : Action α} (h : r.stream.readable = true)
    (hstep : r.step a = some r') (hread : ∀ count, a ≠ .read count) : r'.stream.readable = true := by
  cases a with
  | put items =>
      obtain ⟨-, rfl⟩ := put_cases hstep
      exact Stream.readable_put items h
  | close =>
      obtain ⟨-, rfl⟩ := close_cases hstep
      exact Stream.readable_close _
  | read count => exact absurd rfl (hread count)
  | fail =>
      obtain ⟨-, rfl⟩ := fail_cases hstep
      exact h

/-! ## What holds at every step -/

/-- What holds of a pipe and its reader in any order of their actions. -/
structure ReaderInv (as : List (Action α)) (r : Reader α) : Prop where
  content_eq : r.content = r.stream.taken
  written_eq : r.stream.written = writtenBy as
  /-- The reader only stops at the end, or at a failure. -/
  stopped : r.more = false → r.stream.AtEnd ∨ .fail ∈ as

theorem ReaderInv.start : ReaderInv [] (Reader.start : Reader α) :=
  ⟨rfl, rfl, fun h => by cases h⟩

/-- **Step lemma.** -/
theorem ReaderInv.step [DecidableEq α] {as : List (Action α)} {r r' : Reader α} {a : Action α} (h : ReaderInv as r)
    (hstep : r.step a = some r') : ReaderInv (as ++ [a]) r' := by
  cases a with
  | put items =>
      obtain ⟨hopen, rfl⟩ := put_cases hstep
      refine ⟨h.content_eq, ?_, ?_⟩
      · simp [writtenBy_append, writtenBy, h.written_eq]
      · intro hmore
        rcases h.stopped hmore with hend | hfail
        · rw [hend.2] at hopen
          cases hopen
        · exact .inr (by simp [hfail])
  | close =>
      obtain ⟨-, rfl⟩ := close_cases hstep
      refine ⟨h.content_eq, ?_, ?_⟩
      · simp [writtenBy_append, writtenBy, h.written_eq]
      · intro hmore
        rcases h.stopped hmore with hend | hfail
        · exact .inl ⟨hend.1, rfl⟩
        · exact .inr (by simp [hfail])
  | read count =>
      obtain ⟨-, hreturns, rfl⟩ := read_cases hstep
      refine ⟨?_, ?_, ?_⟩
      · simp [Stream.take, h.content_eq]
      · simp [writtenBy_append, writtenBy, h.written_eq]
      · intro hmore
        rcases hreturns with ⟨hpos, -⟩ | ⟨rfl, hend⟩
        · simp [hpos] at hmore
        · exact .inl ⟨by simp [Stream.take, hend.1], hend.2⟩
  | fail =>
      obtain ⟨-, rfl⟩ := fail_cases hstep
      refine ⟨h.content_eq, ?_, fun _ => .inr (by simp)⟩
      simp [writtenBy_append, writtenBy, h.written_eq]

/-- **Run lemma.** -/
theorem readerInv_run [DecidableEq α] {as : List (Action α)} {r : Reader α}
    (hrun : Machine.Run Reader.step Reader.start as r) : ReaderInv as r :=
  hrun.invariant _ ReaderInv.start (fun _ _ _ _ h hstep => h.step hstep)

section Consequences

variable {as : List (Action α)} {r : Reader α}

/-- What was collected is the beginning of what was written. -/
theorem ReaderInv.content_prefix (h : ReaderInv as r) : r.content <+: writtenBy as := by
  rw [← h.written_eq, h.content_eq]
  exact List.prefix_append _ _

/-- **A reader that stopped without a failure has all that was written**, and no one can write more. -/
theorem ReaderInv.complete (h : ReaderInv as r) (hmore : r.more = false) (hfail : .fail ∉ as) :
    r.content = writtenBy as ∧ r.stream.AtEnd := by
  have hend := (h.stopped hmore).resolve_right hfail
  refine ⟨?_, hend⟩
  rw [← h.written_eq, h.content_eq, Stream.written, hend.1, List.append_nil]

end Consequences

end Pipe
