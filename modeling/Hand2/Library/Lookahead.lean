import Mathlib.Logic.Function.Basic
import Mathlib.Data.List.Basic
import Mathlib.Data.Nat.ModEq

/-!
# `Library.Lookahead` — a source of items behind a ring of slots

A reader that wants to see a few items ahead fetches them into a ring and reads them from there. What it sees is one
sequence of items, the ones in the ring and then the ones still to come: peeking does not change the sequence, and
eating drops its first item (`peek_streams`, `eat_streams`). The items are those the source would have given without
a ring.
-/

namespace Lookahead

variable {σ α : Type}

/-- The source, the two ends of what has been fetched, and the slots. -/
structure Ring (σ α : Type) where
  source : σ
  toRead : Nat
  toWrite : Nat
  slots : Nat → α

section Operations

variable (next : σ → α × σ) (size : Nat)

/-- Fetch the item at `offset` if it is the next to come. -/
def fetch (r : Ring σ α) (offset : Nat) : Ring σ α :=
  if (r.toRead + offset) % size = r.toWrite then
    { source := (next r.source).2
      toRead := r.toRead
      toWrite := (r.toWrite + 1) % size
      slots := Function.update r.slots ((r.toRead + offset) % size) (next r.source).1 }
  else r

/-- The item `lookahead` items ahead. -/
def peek (r : Ring σ α) (lookahead : Nat) : α × Ring σ α :=
  let r := (List.range (lookahead + 1)).foldl (fetch next size) r
  (r.slots ((r.toRead + lookahead) % size), r)

/-- Past the first item. -/
def eat (r : Ring σ α) : Ring σ α :=
  let r := if r.toRead = r.toWrite then (peek next size r 0).2 else r
  { r with toRead := (r.toRead + 1) % size }

/-- The items a source gives. -/
def items : σ → Nat → α
  | s, 0     => (next s).1
  | s, k + 1 => items (next s).2 k

end Operations

/-- The ring holds the first `count` items of a sequence, and the source gives the rest. -/
structure Holds (next : σ → α × σ) (size : Nat) (r : Ring σ α) (seq : Nat → α) (count : Nat) : Prop where
  read_lt : r.toRead < size
  count_lt : count < size
  write_eq : r.toWrite = (r.toRead + count) % size
  slot_eq : ∀ i < count, r.slots ((r.toRead + i) % size) = seq i
  item_eq : ∀ i, items next r.source i = seq (count + i)

/-- What the reader sees. -/
def Streams (next : σ → α × σ) (size : Nat) (r : Ring σ α) (seq : Nat → α) : Prop :=
  ∃ count, Holds next size r seq count

section Lemmas

variable {next : σ → α × σ} {size : Nat} {r : Ring σ α} {seq : Nat → α}

/-- Slots within one turn of the ring are different. -/
theorem slot_inj {a i j : Nat} (hi : i < size) (hj : j < size) : (a + i) % size = (a + j) % size ↔ i = j := by
  constructor
  · intro h
    have hmod : i ≡ j [MOD size] := Nat.ModEq.add_left_cancel' a h
    exact Nat.ModEq.eq_of_lt_of_lt hmod hi hj
  · intro h
    rw [h]

/-- An empty ring. -/
theorem streams_start (next : σ → α × σ) {size : Nat} (hsize : 0 < size) (s : σ) (slots : Nat → α) :
    Streams next size ⟨s, 0, 0, slots⟩ (items next s) := by
  refine ⟨0, hsize, hsize, (Nat.zero_mod size).symm, ?_, ?_⟩
  · intro i hi
    exact absurd hi (Nat.not_lt_zero i)
  · intro i
    rw [Nat.zero_add]

/-- Fetching one more item moves it from the source into the ring. -/
theorem fetch_holds {count offset : Nat} (h : Holds next size r seq count) (hoffset : offset ≤ count)
    (hsize : offset + 1 < size) : Holds next size (fetch next size r offset) seq (max count (offset + 1)) := by
  have hcount := h.count_lt
  have hcond : (r.toRead + offset) % size = r.toWrite ↔ offset = count := by
    rw [h.write_eq]
    exact slot_inj (by omega) hcount
  unfold fetch
  split
  · next heq =>
      obtain rfl := hcond.mp heq
      rw [Nat.max_eq_right (Nat.le_succ offset)]
      refine ⟨h.read_lt, hsize, ?_, ?_, ?_⟩
      · show (r.toWrite + 1) % size = (r.toRead + (offset + 1)) % size
        rw [h.write_eq, Nat.mod_add_mod, Nat.add_assoc]
      · intro i hi
        show Function.update r.slots _ _ ((r.toRead + i) % size) = _
        by_cases hlast : i = offset
        · subst hlast
          rw [Function.update_self]
          exact h.item_eq 0
        · rw [Function.update_of_ne (fun hslot => hlast ((slot_inj (by omega) (by omega)).mp hslot))]
          exact h.slot_eq i (by omega)
      · intro i
        show items next (next r.source).2 i = _
        rw [show offset + 1 + i = offset + (i + 1) by omega]
        exact h.item_eq (i + 1)
  · next hne =>
      have hlt : offset ≠ count := fun heq => hne (hcond.mpr heq)
      rw [Nat.max_eq_left (by omega)]
      exact h

/-- The loop of `peek`. -/
theorem fetch_loop_holds {count : Nat} (h : Holds next size r seq count) (n : Nat) (hn : n < size) :
    Holds next size ((List.range n).foldl (fetch next size) r) seq (max count n) := by
  induction n with
  | zero => exact (Nat.max_zero count).symm ▸ h
  | succ n ih =>
      rw [List.range_succ, List.foldl_append]
      have hstep := fetch_holds (ih (by omega)) (Nat.le_max_right count n) (by omega)
      rwa [show max (max count n) (n + 1) = max count (n + 1) by omega] at hstep

/-- **Peeking** sees the item and changes nothing. -/
theorem peek_streams (h : Streams next size r seq) {lookahead : Nat} (hlook : lookahead + 1 < size) :
    (peek next size r lookahead).1 = seq lookahead ∧ Streams next size (peek next size r lookahead).2 seq := by
  obtain ⟨count, h⟩ := h
  have hloop := fetch_loop_holds h (lookahead + 1) hlook
  exact ⟨hloop.slot_eq lookahead (by omega), _, hloop⟩

/-- The read end moves past the first item of a ring that has one. -/
theorem Holds.advance {count : Nat} (h : Holds next size r seq (count + 1)) :
    Holds next size { r with toRead := (r.toRead + 1) % size } (fun i => seq (i + 1)) count := by
  have hcount := h.count_lt
  refine ⟨Nat.mod_lt _ (by omega), by omega, ?_, ?_, ?_⟩
  · show r.toWrite = ((r.toRead + 1) % size + count) % size
    rw [Nat.mod_add_mod, Nat.add_assoc, Nat.add_comm 1 count]
    exact h.write_eq
  · intro i hi
    show r.slots (((r.toRead + 1) % size + i) % size) = seq (i + 1)
    rw [← h.slot_eq (i + 1) (by omega), Nat.mod_add_mod, Nat.add_assoc, Nat.add_comm 1 i]
  · intro i
    show items next r.source i = seq (count + i + 1)
    rw [show count + i + 1 = count + 1 + i by omega]
    exact h.item_eq i

/-- The ends meet when there is nothing between them. -/
theorem Holds.empty_iff {count : Nat} (h : Holds next size r seq count) : r.toRead = r.toWrite ↔ count = 0 := by
  have hread := h.read_lt
  rw [h.write_eq, eq_comm]
  conv_lhs => rhs; rw [← Nat.mod_eq_of_lt hread, ← Nat.add_zero r.toRead]
  exact slot_inj h.count_lt (by omega)

/-- Eating from an empty ring fetches an item first. -/
theorem eat_holds {count : Nat} (h : Holds next size r seq count) (hsize : 1 < size) :
    Holds next size (eat next size r) (fun i => seq (i + 1)) (max count 1 - 1) := by
  unfold eat
  by_cases hempty : r.toRead = r.toWrite
  · rw [if_pos hempty]
    obtain rfl := h.empty_iff.mp hempty
    exact (fetch_loop_holds h 1 hsize).advance
  · rw [if_neg hempty]
    obtain ⟨some, rfl⟩ := Nat.exists_eq_succ_of_ne_zero fun h0 => hempty (h.empty_iff.mpr h0)
    rw [Nat.max_eq_left (Nat.succ_le_succ (Nat.zero_le some))]
    exact h.advance

/-- **Eating** drops the first item. -/
theorem eat_streams (h : Streams next size r seq) (hsize : 1 < size) :
    Streams next size (eat next size r) (fun i => seq (i + 1)) := by
  obtain ⟨count, h⟩ := h
  exact ⟨_, eat_holds h hsize⟩

end Lemmas

/-! ## What holds of a source holds of its ring -/

/-- The source satisfies `Q`, and the items in the slots `P`. -/
structure Satisfies (Q : σ → Prop) (P : α → Prop) (r : Ring σ α) : Prop where
  source : Q r.source
  slots : ∀ i, P (r.slots i)

section Invariant

variable {next : σ → α × σ} {Q : σ → Prop} {P : α → Prop} {r : Ring σ α}

theorem fetch_satisfies (hnext : ∀ s, Q s → P (next s).1 ∧ Q (next s).2) (size : Nat) (h : Satisfies Q P r)
    (offset : Nat) : Satisfies Q P (fetch next size r offset) := by
  obtain ⟨hitem, hsource⟩ := hnext r.source h.source
  unfold fetch
  split
  · refine ⟨hsource, ?_⟩
    intro i
    show P (Function.update r.slots _ _ i)
    by_cases hi : i = (r.toRead + offset) % size
    · rw [hi, Function.update_self]
      exact hitem
    · rw [Function.update_of_ne hi]
      exact h.slots i
  · exact h

/-- **Invariant rule**: what the source keeps, and gives its items, the ring keeps and gives. -/
theorem peek_satisfies (hnext : ∀ s, Q s → P (next s).1 ∧ Q (next s).2) (size : Nat) (h : Satisfies Q P r)
    (lookahead : Nat) :
    P (peek next size r lookahead).1 ∧ Satisfies Q P (peek next size r lookahead).2 := by
  have hloop : ∀ offsets : List Nat, Satisfies Q P (offsets.foldl (fetch next size) r) := by
    intro offsets
    induction offsets generalizing r with
    | nil => exact h
    | cons offset offsets ih => exact ih (fetch_satisfies hnext size h offset)
  exact ⟨(hloop _).slots _, hloop _⟩

theorem eat_satisfies (hnext : ∀ s, Q s → P (next s).1 ∧ Q (next s).2) (size : Nat) (h : Satisfies Q P r) :
    Satisfies Q P (eat next size r) := by
  have hpeek := (peek_satisfies hnext size h 0).2
  unfold eat
  split
  · exact ⟨hpeek.source, hpeek.slots⟩
  · exact ⟨h.source, h.slots⟩

end Invariant

/-! ## Two descriptions of one source -/

section Map

variable {τ β : Type} {f : σ → τ} {g : α → β}

/-- The same ring, with its source and its items seen in another way. -/
def Ring.map (f : σ → τ) (g : α → β) (r : Ring σ α) : Ring τ β :=
  ⟨f r.source, r.toRead, r.toWrite, fun i => g (r.slots i)⟩

variable {next : σ → α × σ} {next' : τ → β × τ}

theorem fetch_map (hnext : ∀ s, next' (f s) = (g (next s).1, f (next s).2)) (size : Nat) (r : Ring σ α)
    (offset : Nat) : fetch next' size (r.map f g) offset = (fetch next size r offset).map f g := by
  have hslots : ∀ index : Nat, Function.update (fun i => g (r.slots i)) index (next' (f r.source)).1
      = fun i => g (Function.update r.slots index (next r.source).1 i) := by
    intro index
    funext i
    rw [hnext, Function.update_apply, Function.update_apply, apply_ite g]
  by_cases heq : (r.toRead + offset) % size = r.toWrite
  · rw [fetch, fetch, if_pos heq, if_pos (show ((r.map f g).toRead + offset) % size = (r.map f g).toWrite from heq)]
    show Ring.mk (next' (f r.source)).2 _ _ (Function.update (fun i => g (r.slots i)) _ (next' (f r.source)).1) = _
    rw [hslots, hnext]
    rfl
  · rw [fetch, fetch, if_neg heq, if_neg (show ¬ ((r.map f g).toRead + offset) % size = (r.map f g).toWrite from heq)]

/-- The loop of `peek` looks at a source in either way. -/
theorem fetch_loop_map (hnext : ∀ s, next' (f s) = (g (next s).1, f (next s).2)) (size : Nat) (r : Ring σ α)
    (offsets : List Nat) :
    offsets.foldl (fetch next' size) (r.map f g) = (offsets.foldl (fetch next size) r).map f g := by
  induction offsets generalizing r with
  | nil => rfl
  | cons offset offsets ih =>
      rw [List.foldl_cons, List.foldl_cons, fetch_map hnext]
      exact ih _

/-- So do peeking and eating. -/
theorem peek_map (hnext : ∀ s, next' (f s) = (g (next s).1, f (next s).2)) (size : Nat) (r : Ring σ α)
    (lookahead : Nat) : peek next' size (r.map f g) lookahead =
      (g (peek next size r lookahead).1, (peek next size r lookahead).2.map f g) := by
  unfold peek
  dsimp only
  rw [fetch_loop_map hnext]
  rfl

theorem eat_map (hnext : ∀ s, next' (f s) = (g (next s).1, f (next s).2)) (size : Nat) (r : Ring σ α) :
    eat next' size (r.map f g) = (eat next size r).map f g := by
  unfold eat
  rw [peek_map hnext]
  by_cases heq : r.toRead = r.toWrite
  · rw [if_pos heq, if_pos (show (r.map f g).toRead = (r.map f g).toWrite from heq)]
    rfl
  · rw [if_neg heq, if_neg (show ¬ (r.map f g).toRead = (r.map f g).toWrite from heq)]
    rfl

end Map

/-! ## Counting the calls of a source -/

/-- A source that counts its calls, and numbers the items by them. -/
def numbered (next : σ → α × σ) (s : σ × Nat) : (α × Nat) × σ × Nat :=
  (((next s.1).1, s.2), (next s.1).2, s.2 + 1)

/-- It gives the same items. -/
theorem items_numbered (next : σ → α × σ) (s : σ) (n i : Nat) :
    items (numbered next) (s, n) i = (items next s i, n + i) := by
  induction i generalizing s n with
  | zero => rfl
  | succ i ih =>
      show items (numbered next) ((next s).2, n + 1) i = _
      rw [ih, Nat.add_right_comm]
      rfl

end Lookahead
