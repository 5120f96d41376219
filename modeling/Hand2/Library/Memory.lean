import Hand2.Library.Loops
import Mathlib.Data.List.Basic
import Mathlib.Data.List.GetD
import Mathlib.Data.List.Pairwise

/-!
# `Library.Memory` — a memory of bytes, and an allocator

Addresses are numbers and blocks are runs of them. A heap has its live blocks, its bytes, and a log of what has been
written where. A load, a store or a `free` that finds no live block is *wild* and stops the run; so does an allocation
that gets no block. An allocator is any function that answers with a block apart from the live ones: the address may be
one that was in use before, and what the block holds is left open. The log of a heap only grows, so an allocator that
sees the heap can answer the same request differently each time.

An operation is followed by what it leaves alone (`Heap.Keeps`): an object that moves from one block to another leaves
all other blocks as they are (`Heap.Moves`), and moves compose.
-/

namespace Memory

/-- The addresses of a process end here: the upper half of the 64-bit space is not its own. -/
def addressLimit : Nat := 9223372036854775808

/-- A run of addresses. -/
structure Block where
  start : Nat
  size : Nat
  deriving DecidableEq

namespace Block

/-- An address in a block. -/
def Contains (b : Block) (a : Nat) : Prop := b.start ≤ a ∧ a < b.start + b.size

instance (b : Block) (a : Nat) : Decidable (b.Contains a) :=
  inferInstanceAs (Decidable (b.start ≤ a ∧ a < b.start + b.size))

/-- One block ends where the other starts, or before. A block without bytes has an address all the same. -/
def Apart (b c : Block) : Prop := b.start + max 1 b.size ≤ c.start ∨ c.start + max 1 c.size ≤ b.start

instance (b c : Block) : Decidable (b.Apart c) :=
  inferInstanceAs (Decidable (b.start + max 1 b.size ≤ c.start ∨ c.start + max 1 c.size ≤ b.start))

theorem Apart.symm {b c : Block} (h : b.Apart c) : c.Apart b := Or.symm h

instance : Std.Symm Apart := ⟨fun _ _ => Apart.symm⟩

/-- Blocks that are apart start at different addresses. -/
theorem Apart.start_ne {b c : Block} (h : b.Apart c) : b.start ≠ c.start := by
  unfold Apart at h
  omega

/-- Blocks that are apart share no address. -/
theorem Apart.not_contains {b c : Block} (h : b.Apart c) {a : Nat} (hb : b.Contains a) : ¬ c.Contains a := by
  unfold Apart Contains at *
  omega

end Block

/-- The live blocks, the bytes, and the addresses written so far, oldest first. -/
@[ext] structure Heap where
  blocks : List Block
  bytes : Nat → UInt8
  written : List Nat
  apart : blocks.Pairwise Block.Apart
  inRange : ∀ b ∈ blocks, 0 < b.start ∧ b.start + b.size ≤ addressLimit

/-- What stops a run. -/
inductive Trap where
  /-- There is no block for a request. -/
  | outOfMemory
  /-- There is no live block at an address. -/
  | wild
  deriving DecidableEq

/-- An answer to a request for `size` bytes: a block apart from the live ones, with any bytes in it. -/
structure Answer (h : Heap) (size : Nat) where
  start : Nat
  contents : Nat → UInt8
  start_pos : 0 < start
  end_le : start + size ≤ addressLimit
  fresh : ∀ b ∈ h.blocks, Block.Apart ⟨start, size⟩ b

/-- An allocator. -/
def Malloc : Type := (h : Heap) → (size : Nat) → Option (Answer h size)

namespace Heap

/-- An address in a live block. -/
def Live (h : Heap) (a : Nat) : Prop := ∃ b ∈ h.blocks, b.Contains a

instance (h : Heap) (a : Nat) : Decidable (h.Live a) := inferInstanceAs (Decidable (∃ b ∈ h.blocks, b.Contains a))

/-! ## Operations -/

/-- The `n` bytes from an address on. -/
def read (h : Heap) (a n : Nat) : List UInt8 := (List.range n).map fun i => h.bytes (a + i)

/-- Bytes put at an address, whatever is there. -/
def write (h : Heap) (a : Nat) (data : List UInt8) : Heap :=
  { h with
    bytes := fun x => if a ≤ x then data.getD (x - a) (h.bytes x) else h.bytes x
    written := h.written ++ List.range' a data.length }

/-- The block of an answer becomes live. -/
def extend (h : Heap) {size : Nat} (answer : Answer h size) : Heap where
  blocks := ⟨answer.start, size⟩ :: h.blocks
  bytes := fun x => if (Block.mk answer.start size).Contains x then answer.contents (x - answer.start) else h.bytes x
  written := h.written
  apart := List.pairwise_cons.mpr ⟨answer.fresh, h.apart⟩
  inRange := List.forall_mem_cons.mpr ⟨⟨answer.start_pos, answer.end_le⟩, h.inRange⟩

/-- The block at an address is live no longer. -/
def release (h : Heap) (a : Nat) : Heap :=
  { h with
    blocks := h.blocks.filter (fun b => b.start ≠ a)
    apart := h.apart.filter _
    inRange := fun b hb => h.inRange b (List.mem_filter.mp hb).1 }

/-- Load a byte. -/
def load (h : Heap) (a : Nat) : Except Trap UInt8 := if h.Live a then .ok (h.bytes a) else .error .wild

/-- Store a byte. -/
def store (h : Heap) (a : Nat) (value : UInt8) : Except Trap Heap :=
  if h.Live a then .ok (h.write a [value]) else .error .wild

/-- `malloc`, for a caller that gives up without a block. -/
def allocate (malloc : Malloc) (h : Heap) (size : Nat) : Except Trap (Nat × Heap) :=
  match malloc h size with
  | none        => .error .outOfMemory
  | some answer => .ok (answer.start, h.extend answer)

/-- `free`; the null pointer is passed over. -/
def free (h : Heap) (a : Nat) : Except Trap Heap :=
  if a = 0 then .ok h
  else if ∃ b ∈ h.blocks, b.start = a then .ok (h.release a)
  else .error .wild

end Heap

/-- Where bytes are copied from: the memory, or a constant. -/
inductive Source where
  | pointer (address : Nat)
  | literal (data : List UInt8)

namespace Source

/-- Load the byte at an offset. -/
def load (h : Heap) (i : Nat) : Source → Except Trap UInt8
  | .pointer a    => h.load (a + i)
  | .literal data => if hi : i < data.length then .ok data[i] else .error .wild

/-- The first `n` bytes. -/
def bytes (h : Heap) (n : Nat) : Source → List UInt8
  | .pointer a    => h.read a n
  | .literal data => data.take n

/-- The first `n` bytes are there, and none of them in the block at `start`. -/
def Outside (h : Heap) (start n : Nat) : Source → Prop
  | .pointer a    => ∀ i < n, ∃ b ∈ h.blocks, b.start ≠ start ∧ b.Contains (a + i)
  | .literal data => n ≤ data.length

instance (h : Heap) (start n : Nat) (source : Source) : Decidable (source.Outside h start n) :=
  match source with
  | .pointer a    => inferInstanceAs (Decidable (∀ i < n, ∃ b ∈ h.blocks, b.start ≠ start ∧ b.Contains (a + i)))
  | .literal data => inferInstanceAs (Decidable (n ≤ data.length))

end Source

/-- Copy bytes one by one, from the first to the last. -/
def Heap.copy (h : Heap) (dest : Nat) (source : Source) (n : Nat) : Except Trap Heap :=
  (List.range n).foldlM (fun h i => source.load h i >>= h.store (dest + i)) h

/-! ## Bytes read and written -/

namespace Heap

variable {h h' : Heap}

@[simp] theorem blocks_write (h : Heap) (a : Nat) (data : List UInt8) : (h.write a data).blocks = h.blocks := rfl

theorem bytes_write_in (h : Heap) {a i : Nat} {data : List UInt8} (hi : i < data.length) :
    (h.write a data).bytes (a + i) = data[i] := by
  show (if a ≤ a + i then data.getD (a + i - a) (h.bytes (a + i)) else h.bytes (a + i)) = _
  rw [if_pos (Nat.le_add_right a i), Nat.add_sub_cancel_left, List.getD_eq_getElem _ _ hi]

theorem bytes_write_out (h : Heap) {a x : Nat} {data : List UInt8} (hx : x < a ∨ a + data.length ≤ x) :
    (h.write a data).bytes x = h.bytes x := by
  show (if a ≤ x then data.getD (x - a) (h.bytes x) else h.bytes x) = _
  by_cases ha : a ≤ x
  · rw [if_pos ha, List.getD_eq_default _ _ (by omega)]
  · rw [if_neg ha]

theorem write_nil (h : Heap) (a : Nat) : h.write a [] = h := by
  ext1
  · rfl
  · funext x
    exact h.bytes_write_out (by rw [List.length_nil]; omega)
  · exact List.append_nil _

/-- Bytes written behind one another. -/
theorem write_write (h : Heap) (a : Nat) (xs ys : List UInt8) :
    (h.write a xs).write (a + xs.length) ys = h.write a (xs ++ ys) := by
  ext1
  · rfl
  · funext x
    by_cases hxs : x < a ∨ a + (xs ++ ys).length ≤ x
    · rw [bytes_write_out _ hxs]
      rw [List.length_append] at hxs
      rw [bytes_write_out _ (by omega), bytes_write_out _ (by omega)]
    · rw [List.length_append] at hxs
      obtain ⟨i, rfl⟩ := Nat.exists_eq_add_of_le (show a ≤ x by omega)
      rw [bytes_write_in h (show i < (xs ++ ys).length by rw [List.length_append]; omega)]
      by_cases hi : i < xs.length
      · rw [bytes_write_out _ (by omega), bytes_write_in h hi, List.getElem_append_left hi]
      · obtain ⟨j, rfl⟩ := Nat.exists_eq_add_of_le (show xs.length ≤ i by omega)
        rw [← Nat.add_assoc, bytes_write_in _ (show j < ys.length by omega),
          List.getElem_append_right (Nat.le_add_right _ _)]
        congr 1
        omega
  · show h.written ++ List.range' a xs.length ++ List.range' (a + xs.length) ys.length = _
    rw [List.append_assoc, List.range'_append_1, ← List.length_append]
    rfl

@[simp] theorem length_read (h : Heap) (a n : Nat) : (h.read a n).length = n := by
  rw [read, List.length_map, List.length_range]

theorem getElem_read (h : Heap) {a n i : Nat} (hi : i < (h.read a n).length) : (h.read a n)[i] = h.bytes (a + i) := by
  simp only [read, List.getElem_map, List.getElem_range]

theorem read_congr {a n : Nat} (hbytes : ∀ i < n, h'.bytes (a + i) = h.bytes (a + i)) : h'.read a n = h.read a n :=
  List.map_congr_left fun i hi => hbytes i (List.mem_range.mp hi)

/-- Bytes behind one another. -/
theorem read_add (h : Heap) (a m n : Nat) : h.read a (m + n) = h.read a m ++ h.read (a + m) n := by
  unfold read
  rw [List.range_add, List.map_append, List.map_map]
  congr 1
  apply List.map_congr_left
  intro i _
  show h.bytes (a + (m + i)) = h.bytes (a + m + i)
  rw [Nat.add_assoc]

/-- The first byte. -/
theorem read_succ (h : Heap) (a n : Nat) : h.read a (n + 1) = h.bytes a :: h.read (a + 1) n := by
  rw [Nat.add_comm n 1, read_add]
  rfl

/-- Bytes from the middle. -/
theorem read_middle (h : Heap) {a n offset m : Nat} (hle : offset + m ≤ n) :
    h.read (a + offset) m = ((h.read a n).drop offset).take m := by
  obtain ⟨rest, rfl⟩ := Nat.exists_eq_add_of_le hle
  rw [Nat.add_assoc, read_add, read_add, List.drop_left' (length_read _ _ _), List.take_left' (length_read _ _ _)]

/-- What was written is there. -/
theorem read_write (h : Heap) (a : Nat) (data : List UInt8) : (h.write a data).read a data.length = data := by
  apply List.ext_getElem (length_read _ _ _)
  intro i _ hi
  rw [getElem_read, bytes_write_in h hi]

/-- A part of it. -/
theorem read_write_prefix (h : Heap) (a : Nat) (xs ys : List UInt8) :
    (h.write a (xs ++ ys)).read a xs.length = xs := by
  apply List.ext_getElem (length_read _ _ _)
  intro i _ hi
  rw [getElem_read, bytes_write_in h (by rw [List.length_append]; omega), List.getElem_append_left hi]

/-- What is in front of it stays. -/
theorem read_write_before (h : Heap) (a n : Nat) (data : List UInt8) : (h.write (a + n) data).read a n = h.read a n :=
  read_congr fun i hi => h.bytes_write_out (by omega)

/-! ## Blocks -/

/-- Two live blocks that start at different addresses are apart. -/
theorem apart_of_mem {b c : Block} (hb : b ∈ h.blocks) (hc : c ∈ h.blocks) (hne : b.start ≠ c.start) : b.Apart c :=
  h.apart.forall hb hc fun heq => hne (congrArg Block.start heq)

theorem mem_release {b : Block} {a : Nat} : b ∈ (h.release a).blocks ↔ b ∈ h.blocks ∧ b.start ≠ a := by
  show b ∈ h.blocks.filter (fun b => b.start ≠ a) ↔ _
  rw [List.mem_filter, decide_eq_true_iff]

theorem live_of_mem {b : Block} (hb : b ∈ h.blocks) {a : Nat} (ha : b.Contains a) : h.Live a := ⟨b, hb, ha⟩

theorem store_eq {b : Block} (hb : b ∈ h.blocks) {a : Nat} (ha : b.Contains a) (value : UInt8) :
    h.store a value = .ok (h.write a [value]) :=
  if_pos (live_of_mem hb ha)

theorem load_eq {b : Block} (hb : b ∈ h.blocks) {a : Nat} (ha : b.Contains a) : h.load a = .ok (h.bytes a) :=
  if_pos (live_of_mem hb ha)

/-- An object of `n` bytes has a block, or is nothing at the null pointer. -/
def Object (h : Heap) (start n : Nat) : Prop := (start = 0 ∧ n = 0) ∨ ∃ size, ⟨start, size⟩ ∈ h.blocks ∧ n ≤ size

/-- An object can be freed; where there is nothing, nothing happens. -/
theorem free_eq {a n : Nat} (ha : h.Object a n) : h.free a = .ok (h.release a) := by
  unfold free
  by_cases hzero : a = 0
  · rw [if_pos hzero]
    have hall : h.blocks.filter (fun b => b.start ≠ a) = h.blocks := by
      apply List.filter_eq_self.mpr
      intro b hb
      have hpos := (h.inRange b hb).1
      rw [decide_eq_true_iff]
      omega
    congr 1
    ext1
    · exact hall.symm
    · rfl
    · rfl
  · rcases ha with ⟨hnull, -⟩ | ⟨size, hmem, -⟩
    · exact absurd hnull hzero
    · rw [if_neg hzero, if_pos ⟨_, hmem, rfl⟩]

/-! ## What stays -/

/-- A block stays live, and keeps its bytes. -/
def Keeps (h h' : Heap) (b : Block) : Prop := b ∈ h'.blocks ∧ ∀ a, b.Contains a → h'.bytes a = h.bytes a

/-- What was at `start` is now at `start'`, and every other block stays as it is. -/
def Moves (h : Heap) (start : Nat) (h' : Heap) (start' : Nat) : Prop :=
  ∀ b ∈ h.blocks, b.start ≠ start → b.start ≠ start' ∧ h.Keeps h' b

section Moves

variable {start start' start'' : Nat} {h'' : Heap}

theorem Moves.refl (h : Heap) (start : Nat) : h.Moves start h start :=
  fun _ hb hne => ⟨hne, hb, fun _ _ => rfl⟩

/-- Moves compose. -/
theorem Moves.trans (hmove : h.Moves start h' start') (hmove' : h'.Moves start' h'' start'') :
    h.Moves start h'' start'' := by
  intro b hb hne
  obtain ⟨hne', hmem, hbytes⟩ := hmove b hb hne
  obtain ⟨hne'', hmem', hbytes'⟩ := hmove' b hmem hne'
  exact ⟨hne'', hmem', fun a ha => (hbytes' a ha).trans (hbytes a ha)⟩

/-- Writing into a block. -/
theorem moves_write {c : Block} (hc : c ∈ h.blocks) {a : Nat} {data : List UInt8} (ha : c.start ≤ a)
    (hend : a + data.length ≤ c.start + c.size) : h.Moves c.start (h.write a data) c.start := by
  intro b hb hne
  refine ⟨hne, hb, ?_⟩
  intro x hx
  have hout := (apart_of_mem hb hc hne).not_contains hx
  unfold Block.Contains at hout
  exact h.bytes_write_out (by omega)

/-- A new block starts where no other does. -/
theorem start_ne_of_object {size n : Nat} (answer : Answer h size) (hobject : h.Object start n) :
    answer.start ≠ start := by
  rcases hobject with ⟨rfl, -⟩ | ⟨m, hmem, -⟩
  · exact Nat.ne_of_gt answer.start_pos
  · exact (answer.fresh _ hmem).start_ne

/-- The object is still there while the new block is filled. -/
theorem Object.relocate {size n : Nat} (hobject : h.Object start n) (answer : Answer h size) (data : List UInt8) :
    ((h.extend answer).write answer.start data).Object start n := by
  rcases hobject with hnull | ⟨m, hmem, hm⟩
  · exact .inl hnull
  · exact .inr ⟨m, List.mem_cons_of_mem _ hmem, hm⟩

/-- What is allocated leaves the bytes of the live blocks. -/
theorem bytes_extend {size : Nat} (answer : Answer h size) {b : Block} (hb : b ∈ h.blocks) {a : Nat}
    (ha : b.Contains a) : (h.extend answer).bytes a = h.bytes a :=
  if_neg ((answer.fresh b hb).symm.not_contains ha)

end Moves

/-! ## Changes of one object -/

/-- What was at `start` is now the block `b`; nothing was written outside of it, and every other block stays as it
    is. -/
structure Changes (h : Heap) (start : Nat) (h' : Heap) (b : Block) : Prop where
  moves : h.Moves start h' b.start
  writes : ∃ indices : List Nat, h'.written = h.written ++ indices.map (b.start + ·) ∧ ∀ i ∈ indices, i < b.size

section Changes

variable {start : Nat} {b : Block}

theorem Changes.refl (h : Heap) (b : Block) : h.Changes b.start h b :=
  ⟨Moves.refl h b.start, [], (List.append_nil _).symm, fun _ hi => absurd hi List.not_mem_nil⟩

/-- Writing into the block. -/
theorem Changes.write (hchanges : h.Changes start h' b) (hb : b ∈ h'.blocks) {offset : Nat} {data : List UInt8}
    (hend : offset + data.length ≤ b.size) : h.Changes start (h'.write (b.start + offset) data) b := by
  obtain ⟨hmoves, indices, hwritten, hindices⟩ := hchanges
  refine ⟨hmoves.trans (moves_write hb (Nat.le_add_right _ _) (by omega)),
    indices ++ (List.range data.length).map (offset + ·), ?_, ?_⟩
  · show h'.written ++ List.range' (b.start + offset) data.length = _
    rw [hwritten, List.map_append, List.append_assoc, List.map_map, List.range'_eq_map_range]
    congr 2
    apply List.map_congr_left
    intro i _
    exact Nat.add_assoc _ _ _
  · intro i hi
    rcases List.mem_append.mp hi with hold | hnew
    · exact hindices i hold
    · obtain ⟨j, hj, rfl⟩ := List.mem_map.mp hnew
      have hlt := List.mem_range.mp hj
      omega

/-- A new block. -/
theorem changes_extend {size : Nat} (answer : Answer h size) : h.Changes 0 (h.extend answer) ⟨answer.start, size⟩ := by
  refine ⟨?_, [], (List.append_nil _).symm, fun _ hi => absurd hi List.not_mem_nil⟩
  intro b hb _
  exact ⟨(answer.fresh b hb).start_ne.symm, List.mem_cons_of_mem _ hb, fun _ ha => bytes_extend answer hb ha⟩

/-- Moving to a new block, which is filled, and the old one is released. -/
theorem changes_relocate {size : Nat} (answer : Answer h size) {data : List UInt8} (hdata : data.length ≤ size) :
    h.Changes start (((h.extend answer).write answer.start data).release start) ⟨answer.start, size⟩ := by
  constructor
  · intro b hb hne
    have hfresh := answer.fresh b hb
    refine ⟨hfresh.start_ne.symm, mem_release.mpr ⟨List.mem_cons_of_mem _ hb, hne⟩, ?_⟩
    intro x hx
    have hout : ¬ (answer.start ≤ x ∧ x < answer.start + size) := hfresh.symm.not_contains hx
    calc ((h.extend answer).write answer.start data).bytes x
        = (h.extend answer).bytes x := bytes_write_out _ (by omega)
      _ = h.bytes x := bytes_extend answer hb hx
  · refine ⟨List.range data.length, ?_, ?_⟩
    · show h.written ++ List.range' answer.start data.length = _
      rw [List.range'_eq_map_range]
    · intro i hi
      exact Nat.lt_of_lt_of_le (List.mem_range.mp hi) hdata

/-- The new block is live. -/
theorem mem_relocate {size n : Nat} (answer : Answer h size) (hobject : h.Object start n) (data : List UInt8) :
    Block.mk answer.start size ∈ (((h.extend answer).write answer.start data).release start).blocks :=
  mem_release.mpr ⟨List.mem_cons_self, start_ne_of_object answer hobject⟩

end Changes

end Heap

/-! ## Copying -/

namespace Source

variable {h h' : Heap} {start start' n : Nat} {source : Source}

theorem length_bytes (hsource : source.Outside h start n) : (source.bytes h n).length = n := by
  cases source with
  | pointer a    => exact Heap.length_read h a n
  | literal data => exact List.length_take_of_le hsource

theorem Outside.mono {m : Nat} (hsource : source.Outside h start n) (hm : m ≤ n) : source.Outside h start m := by
  cases source with
  | pointer a    => exact fun i hi => hsource i (Nat.lt_of_lt_of_le hi hm)
  | literal data => exact Nat.le_trans hm hsource

/-- The next byte, in any memory that has kept the other blocks. -/
theorem Outside.next (hsource : source.Outside h start (n + 1)) (hmove : h.Moves start h' start') :
    ∃ value, source.load h' n = .ok value ∧ source.bytes h (n + 1) = source.bytes h n ++ [value] := by
  cases source with
  | pointer a =>
      obtain ⟨b, hb, hne, ha⟩ := hsource n (Nat.lt_succ_self n)
      obtain ⟨-, hmem, hbytes⟩ := hmove b hb hne
      refine ⟨h.bytes (a + n), ?_, Heap.read_add h a n 1⟩
      rw [← hbytes _ ha]
      exact Heap.load_eq hmem ha
  | literal data =>
      have hn : n < data.length := hsource
      exact ⟨data[n], dif_pos hn, List.take_succ_eq_append_getElem hn⟩

/-- The bytes stay while the other blocks are kept. -/
theorem Outside.moves (hsource : source.Outside h start n) (hmove : h.Moves start h' start') :
    source.Outside h' start' n ∧ source.bytes h' n = source.bytes h n := by
  cases source with
  | pointer a =>
      refine ⟨?_, ?_⟩
      · intro i hi
        obtain ⟨b, hb, hne, ha⟩ := hsource i hi
        obtain ⟨hne', hmem, -⟩ := hmove b hb hne
        exact ⟨b, hmem, hne', ha⟩
      · apply Heap.read_congr
        intro i hi
        obtain ⟨b, hb, hne, ha⟩ := hsource i hi
        exact (hmove b hb hne).2.2 _ ha
  | literal data => exact ⟨hsource, rfl⟩

/-- What lies outside of a block leaves room for it. -/
theorem Outside.add_size_le {a : Nat} {c : Block} (hc : c ∈ h.blocks) (hn : 0 < n) (hsize : 0 < c.size)
    (hsource : (Source.pointer a).Outside h c.start n) : n + c.size ≤ addressLimit := by
  -- otherwise it would meet the block where the later of the two starts
  obtain ⟨first, hfirst, hne, hcontains⟩ := hsource 0 hn
  obtain ⟨last, hlast, hne', hcontains'⟩ := hsource (n - 1) (by omega)
  obtain ⟨-, hend⟩ := h.inRange c hc
  have hend' := (h.inRange last hlast).2
  unfold Block.Contains at hcontains hcontains'
  by_cases hmeet : a < c.start + c.size ∧ c.start < a + n
  · obtain ⟨b, hb, hother, hin⟩ := hsource (max a c.start - a) (by omega)
    have hout := (Heap.apart_of_mem hb hc hother).not_contains hin
    exact absurd ⟨by omega, by omega⟩ hout
  · omega

end Source

/-- **Copying** into a block from outside of it puts the bytes there. -/
theorem Heap.copy_eq {h : Heap} {c : Block} (hc : c ∈ h.blocks) {dest n : Nat} (hdest : c.start ≤ dest)
    (hend : dest + n ≤ c.start + c.size) {source : Source} (hsource : source.Outside h c.start n) :
    h.copy dest source n = .ok (h.write dest (source.bytes h n)) := by
  unfold Heap.copy
  induction n with
  | zero =>
      have hempty : source.bytes h 0 = [] := List.length_eq_zero_iff.mp (Source.length_bytes hsource)
      rw [hempty, write_nil]
      rfl
  | succ n ih =>
      have hfirst := hsource.mono (Nat.le_succ n)
      have hlen := Source.length_bytes hfirst
      -- the bytes copied so far lie in the block, so what comes next is as it was
      have hmove : h.Moves c.start (h.write dest (source.bytes h n)) c.start :=
        moves_write hc hdest (by omega)
      obtain ⟨value, hload, hbytes⟩ := hsource.next hmove
      rw [Loops.foldlM_range_succ, ih (by omega) hfirst]
      show (source.load (h.write dest (source.bytes h n)) n >>=
        (h.write dest (source.bytes h n)).store (dest + n)) = _
      rw [hload]
      show (h.write dest (source.bytes h n)).store (dest + n) value = _
      rw [store_eq (show c ∈ (h.write dest (source.bytes h n)).blocks from hc) ⟨by omega, by omega⟩, hbytes]
      congr 1
      have hwrite := write_write h dest (source.bytes h n) [value]
      rwa [hlen] at hwrite

/-- Copying an object into a new block. -/
theorem Heap.copy_relocate {h : Heap} {start n size : Nat} (answer : Answer h size) (hobject : h.Object start n)
    (hn : n ≤ size) :
    (h.extend answer).copy answer.start (.pointer start) n =
      .ok ((h.extend answer).write answer.start (h.read start n)) := by
  have hcontains : ∀ i < n, ∃ b ∈ h.blocks, b.Contains (start + i) := by
    intro i hi
    rcases hobject with ⟨-, rfl⟩ | ⟨m, hmem, hm⟩
    · exact absurd hi (Nat.not_lt_zero i)
    · exact ⟨_, hmem, Nat.le_add_right _ _, Nat.add_lt_add_left (Nat.lt_of_lt_of_le hi hm) start⟩
  have hsource : (Source.pointer start).Outside (h.extend answer) answer.start n := by
    intro i hi
    obtain ⟨b, hb, ha⟩ := hcontains i hi
    exact ⟨b, List.mem_cons_of_mem _ hb, (answer.fresh b hb).start_ne.symm, ha⟩
  have hread : (h.extend answer).read start n = h.read start n := by
    apply read_congr
    intro i hi
    obtain ⟨b, hb, ha⟩ := hcontains i hi
    exact bytes_extend answer hb ha
  rw [copy_eq (c := ⟨answer.start, size⟩) List.mem_cons_self (Nat.le_refl _) (Nat.add_le_add_left hn _) hsource,
    ← hread]
  rfl

/-! ## Runs that memory may be missing for -/

section Yields

variable {α β : Type} {post : α → Prop} {post' : β → Prop} {refused refused' : Prop}

/-- A run ends for want of memory, and then a request was `refused`, or in a value that satisfies `post`; it is never
    wild. -/
def Yields (refused : Prop) (run : Except Trap α) (post : α → Prop) : Prop :=
  (run = .error .outOfMemory ∧ refused) ∨ ∃ a, run = .ok a ∧ post a

theorem Yields.ok {a : α} (h : post a) : Yields refused (.ok a) post := .inr ⟨a, rfl, h⟩

/-- **Rule of sequence.** -/
theorem Yields.bind {run : Except Trap α} {f : α → Except Trap β} (h : Yields refused run post)
    (hrefused : refused → refused') (hf : ∀ a, run = .ok a → post a → Yields refused' (f a) post') :
    Yields refused' (run >>= f) post' := by
  rcases h with ⟨h, hno⟩ | ⟨a, h, ha⟩
  · rw [h]
    exact .inl ⟨rfl, hrefused hno⟩
  · rw [h]
    exact hf a h ha

/-- **Rule of consequence.** -/
theorem Yields.mono {post' : α → Prop} {run : Except Trap α} (h : Yields refused run post)
    (hrefused : refused → refused') (hpost : ∀ a, post a → post' a) : Yields refused' run post' := by
  rcases h with ⟨h, hno⟩ | ⟨a, h, ha⟩
  · exact .inl ⟨h, hrefused hno⟩
  · exact .inr ⟨a, h, hpost a ha⟩

/-- What holds of the value of a run. -/
theorem Yields.of_ok {run : Except Trap α} {a : α} (h : Yields refused run post) (hrun : run = .ok a) : post a := by
  rcases h with ⟨h, -⟩ | ⟨b, h, hb⟩
  · rw [hrun] at h
    cases h
  · rw [hrun] at h
    exact Except.ok.inj h ▸ hb

/-- A run whose requests are granted has a value. -/
theorem Yields.of_granted {run : Except Trap α} (h : Yields refused run post) (hgranted : ¬ refused) :
    ∃ a, run = .ok a ∧ post a :=
  h.resolve_left fun hno => hgranted hno.2

theorem Heap.allocate_yields (malloc : Malloc) (h : Heap) (size : Nat) :
    Yields (malloc h size = none) (h.allocate malloc size)
      fun p => ∃ answer : Answer h size, malloc h size = some answer ∧ p = (answer.start, h.extend answer) := by
  unfold Heap.allocate
  cases hmalloc : malloc h size with
  | none        => exact .inl ⟨rfl, rfl⟩
  | some answer => exact .ok ⟨answer, rfl, rfl⟩

end Yields

/-! ## An allocator -/

/-- No memory in use. -/
def Heap.empty : Heap := ⟨[], fun _ => 0, [], .nil, fun _ hb => absurd hb List.not_mem_nil⟩

/-- Behind all live blocks. -/
def Heap.top (h : Heap) : Nat := h.blocks.foldr (fun b top => max (b.start + max 1 b.size) top) 1

theorem Heap.top_pos (h : Heap) : 0 < h.top := by
  unfold Heap.top
  induction h.blocks with
  | nil => exact Nat.one_pos
  | cons b blocks ih => exact Nat.lt_of_lt_of_le ih (Nat.le_max_right _ _)

theorem Heap.end_le_top {h : Heap} {b : Block} (hb : b ∈ h.blocks) : b.start + max 1 b.size ≤ h.top := by
  unfold Heap.top
  generalize h.blocks = blocks at hb
  induction blocks with
  | nil => exact absurd hb List.not_mem_nil
  | cons c blocks ih =>
      rcases List.mem_cons.mp hb with rfl | hb
      · exact Nat.le_max_left _ _
      · exact Nat.le_trans (ih hb) (Nat.le_max_right _ _)

/-- What ends before `n`, block by block. -/
theorem Heap.top_le {h : Heap} {n : Nat} (hpos : 0 < n) (hend : ∀ b ∈ h.blocks, b.start + max 1 b.size ≤ n) :
    h.top ≤ n := by
  unfold Heap.top
  generalize h.blocks = blocks at hend
  induction blocks with
  | nil => exact hpos
  | cons b blocks ih =>
      rw [List.forall_mem_cons] at hend
      exact Nat.max_le.mpr ⟨hend.1, ih hend.2⟩

theorem Heap.top_le_top {h h' : Heap} (hsub : ∀ b ∈ h'.blocks, b ∈ h.blocks) : h'.top ≤ h.top :=
  top_le h.top_pos fun b hb => end_le_top (hsub b hb)

theorem Heap.top_congr {h h' : Heap} (hblocks : h'.blocks = h.blocks) : h'.top = h.top :=
  Nat.le_antisymm (top_le_top fun _ hb => hblocks ▸ hb) (top_le_top fun _ hb => hblocks ▸ hb)

/-- The allocator that never uses an address again while something lives behind it. -/
def Malloc.bump : Malloc := fun h size =>
  if hend : h.top + size ≤ addressLimit then
    some ⟨h.top, fun _ => 0, h.top_pos, hend, fun _ hb => .inr (h.end_le_top hb)⟩
  else none

/-- It refuses what does not fit behind them. -/
theorem Malloc.bump_eq_none {h : Heap} {size : Nat} (hno : Malloc.bump h size = none) :
    addressLimit < h.top + size := by
  by_contra hfits
  unfold Malloc.bump at hno
  rw [dif_pos (Nat.not_lt.mp hfits)] at hno
  cases hno

namespace Heap

variable {h h' : Heap}

/-- A store makes no block and ends none. -/
theorem blocks_of_store {a : Nat} {value : UInt8} (hrun : h.store a value = .ok h') : h'.blocks = h.blocks := by
  unfold store at hrun
  split at hrun
  · rw [← Except.ok.inj hrun, blocks_write]
  · cases hrun

theorem blocks_of_copy {dest n : Nat} {source : Source} (hrun : h.copy dest source n = .ok h') :
    h'.blocks = h.blocks := by
  refine Loops.foldlM_ok_invariant (fun h' => h'.blocks = h.blocks) (fun i _ h₁ h₂ hblocks hround => ?_) rfl hrun
  obtain ⟨value, -, hstore⟩ := Loops.bind_eq_ok hround
  rw [blocks_of_store hstore, hblocks]

theorem top_of_free {a : Nat} (hrun : h.free a = .ok h') : h'.top ≤ h.top := by
  unfold free at hrun
  split at hrun
  · exact Nat.le_of_eq (congrArg top (Except.ok.inj hrun).symm)
  · split at hrun
    · rw [← Except.ok.inj hrun]
      exact top_le_top fun b hb => (mem_release.mp hb).1
    · cases hrun

/-- A block behind all others. -/
theorem top_extend {size : Nat} {answer : Answer h size} (hstart : answer.start = h.top) :
    (h.extend answer).top ≤ h.top + size + 1 := by
  refine top_le (Nat.succ_pos _) (List.forall_mem_cons.mpr ⟨?_, fun b hb => ?_⟩)
  · show answer.start + max 1 size ≤ _
    omega
  · have hle := end_le_top hb
    omega

theorem top_of_allocate {size start : Nat} (hrun : h.allocate .bump size = .ok (start, h')) :
    h'.top ≤ h.top + size + 1 := by
  unfold allocate at hrun
  split at hrun
  · cases hrun
  · next answer hanswer =>
      unfold Malloc.bump at hanswer
      split at hanswer
      · obtain rfl := Option.some.inj hanswer
        rw [← (Prod.mk.inj (Except.ok.inj hrun)).2]
        exact top_extend rfl
      · cases hanswer

end Heap

end Memory
