import Hand2.Library.Memory
import Mathlib.Algebra.Ring.Nat

/-!
# `Library.Pointers` — arrays of pointers in a memory of bytes

A pointer is eight bytes, the lowest first. An array of pointers follows its bytes: where they are copied the pointers
are copied (`Heap.pointers_congr`), one more can be stored behind them (`Heap.pointers_store`), and a loop can change
them all in place (`Heap.mapPointers_eq`).
-/

namespace Memory

/-- The `n` bytes of a number, the lowest first. -/
def encode : Nat → Nat → List UInt8
  | 0,     _ => []
  | n + 1, v => UInt8.ofNat v :: encode n (v / 256)

/-- The number of such bytes. -/
def decode : List UInt8 → Nat
  | []      => 0
  | b :: bs => b.toNat + 256 * decode bs

@[simp] theorem length_encode (n v : Nat) : (encode n v).length = n := by
  induction n generalizing v with
  | zero => rfl
  | succ n ih => rw [encode, List.length_cons, ih]

theorem decode_encode {n v : Nat} (h : v < 256 ^ n) : decode (encode n v) = v := by
  induction n generalizing v with
  | zero =>
      rw [Nat.pow_zero] at h
      exact (Nat.lt_one_iff.mp h).symm
  | succ n ih =>
      have hdiv : v / 256 < 256 ^ n := by
        rw [Nat.div_lt_iff_lt_mul (by decide), ← Nat.pow_succ]
        exact h
      show v % 256 + 256 * decode (encode n (v / 256)) = v
      rw [ih hdiv]
      exact Nat.mod_add_div v 256

namespace Heap

variable {h h' : Heap}

/-- The pointer at an address. -/
def pointerAt (h : Heap) (a : Nat) : Nat := decode (h.read a 8)

/-- The `n` pointers from an address on. -/
def pointers (h : Heap) (a n : Nat) : List Nat := (List.range n).map fun i => h.pointerAt (a + 8 * i)

/-- All bytes of a pointer are live. -/
def LivePointer (h : Heap) (a : Nat) : Prop := ∀ i < 8, h.Live (a + i)

instance (h : Heap) (a : Nat) : Decidable (h.LivePointer a) := inferInstanceAs (Decidable (∀ i < 8, h.Live (a + i)))

/-- Load a pointer. -/
def loadPointer (h : Heap) (a : Nat) : Except Trap Nat :=
  if h.LivePointer a then .ok (h.pointerAt a) else .error .wild

/-- Store a pointer. -/
def storePointer (h : Heap) (a p : Nat) : Except Trap Heap :=
  if h.LivePointer a then .ok (h.write a (encode 8 p)) else .error .wild

/-- Change `n` pointers, one after the other. -/
def mapPointers (f : Nat → Nat) (a n : Nat) (h : Heap) : Except Trap Heap :=
  (List.range n).foldlM (fun h i => h.loadPointer (a + 8 * i) >>= fun p => h.storePointer (a + 8 * i) (f p)) h

@[simp] theorem length_pointers (h : Heap) (a n : Nat) : (h.pointers a n).length = n := by
  rw [pointers, List.length_map, List.length_range]

theorem pointers_zero (h : Heap) (a : Nat) : h.pointers a 0 = [] := rfl

theorem pointers_succ (h : Heap) (a n : Nat) : h.pointers a (n + 1) = h.pointers a n ++ [h.pointerAt (a + 8 * n)] := by
  rw [pointers, List.range_succ, List.map_append]
  rfl

theorem getElem_pointers (h : Heap) {a n i : Nat} (hi : i < (h.pointers a n).length) :
    (h.pointers a n)[i] = h.pointerAt (a + 8 * i) := by
  simp only [pointers, List.getElem_map, List.getElem_range]

/-- Pointers are where their bytes are. -/
theorem pointers_congr {a a' n : Nat} (hbytes : ∀ i < 8 * n, h'.bytes (a' + i) = h.bytes (a + i)) :
    h'.pointers a' n = h.pointers a n := by
  apply List.map_congr_left
  intro i hi
  have hlt := List.mem_range.mp hi
  apply congrArg decode
  apply List.map_congr_left
  intro j hj
  have hj := List.mem_range.mp hj
  rw [Nat.add_assoc, Nat.add_assoc]
  exact hbytes _ (by omega)

/-- A pointer that was stored. -/
theorem pointerAt_write {a p : Nat} (hp : p < addressLimit) : (h.write a (encode 8 p)).pointerAt a = p := by
  have hread := read_write h a (encode 8 p)
  rw [length_encode] at hread
  rw [pointerAt, hread]
  apply decode_encode
  unfold addressLimit at hp
  omega

/-- One more pointer behind the others. -/
theorem pointers_store {a n p : Nat} (hp : p < addressLimit) :
    (h.write (a + 8 * n) (encode 8 p)).pointers a (n + 1) = h.pointers a n ++ [p] := by
  rw [pointers_succ, pointerAt_write hp]
  refine congrArg (· ++ [p]) ?_
  apply pointers_congr
  intro i hi
  exact h.bytes_write_out (.inl (Nat.add_lt_add_left hi a))

/-- Storing pointers makes no block and ends none. -/
theorem blocks_of_storePointer {a p : Nat} (hrun : h.storePointer a p = .ok h') : h'.blocks = h.blocks := by
  unfold storePointer at hrun
  split at hrun
  · rw [← Except.ok.inj hrun, blocks_write]
  · cases hrun

theorem blocks_of_mapPointers {f : Nat → Nat} {a n : Nat} (hrun : mapPointers f a n h = .ok h') :
    h'.blocks = h.blocks := by
  refine Loops.foldlM_ok_invariant (fun h' => h'.blocks = h.blocks) (fun i _ h₁ h₂ hblocks hround => ?_) rfl hrun
  obtain ⟨p, -, hstore⟩ := Loops.bind_eq_ok hround
  rw [blocks_of_storePointer hstore, hblocks]

section Block

variable {b : Block} {i : Nat}

/-- The bytes of a pointer in a block. -/
theorem live_pointer (hb : b ∈ h.blocks) (hi : 8 * (i + 1) ≤ b.size) : h.LivePointer (b.start + 8 * i) :=
  fun j hj => live_of_mem hb ⟨by omega, by omega⟩

theorem loadPointer_eq (hb : b ∈ h.blocks) (hi : 8 * (i + 1) ≤ b.size) :
    h.loadPointer (b.start + 8 * i) = .ok (h.pointerAt (b.start + 8 * i)) :=
  if_pos (live_pointer hb hi)

theorem storePointer_eq (hb : b ∈ h.blocks) (hi : 8 * (i + 1) ≤ b.size) (p : Nat) :
    h.storePointer (b.start + 8 * i) p = .ok (h.write (b.start + 8 * i) (encode 8 p)) :=
  if_pos (live_pointer hb hi)

/-- **Changing all pointers** of an array in its block. -/
theorem mapPointers_eq (hb : b ∈ h.blocks) {n : Nat} (hn : 8 * n ≤ b.size) {f : Nat → Nat}
    (hf : ∀ p ∈ h.pointers b.start n, f p < addressLimit) :
    ∃ h', mapPointers f b.start n h = .ok h' ∧ h'.blocks = h.blocks ∧
      h'.pointers b.start n = (h.pointers b.start n).map f ∧ h.Changes b.start h' b := by
  -- what comes behind the pointers changed so far is as it was
  suffices hloop : ∃ h', mapPointers f b.start n h = .ok h' ∧ h'.blocks = h.blocks ∧
      h'.pointers b.start n = (h.pointers b.start n).map f ∧ h.Changes b.start h' b ∧
      ∀ x ≥ b.start + 8 * n, h'.bytes x = h.bytes x by
    obtain ⟨h', hrun, hblocks, hpointers, hchanges, -⟩ := hloop
    exact ⟨h', hrun, hblocks, hpointers, hchanges⟩
  unfold mapPointers
  induction n with
  | zero =>
      rw [pointers_zero]
      exact ⟨h, rfl, rfl, pointers_zero h _, Changes.refl h b, fun _ _ => rfl⟩
  | succ n ih =>
      rw [pointers_succ] at hf
      obtain ⟨h₁, hrun, hblocks, hpointers, hchanges, hbehind⟩ :=
        ih (by omega) fun p hp => hf p (List.mem_append_left _ hp)
      have hb₁ : b ∈ h₁.blocks := hblocks ▸ hb
      have hnext : h₁.pointerAt (b.start + 8 * n) = h.pointerAt (b.start + 8 * n) :=
        congrArg decode (read_congr fun j _ => hbehind _ (by omega))
      have hfp := hf _ (List.mem_append_right _ (List.mem_singleton_self _))
      refine ⟨h₁.write (b.start + 8 * n) (encode 8 (f (h.pointerAt (b.start + 8 * n)))), ?_, hblocks, ?_, ?_, ?_⟩
      · rw [Loops.foldlM_range_succ, hrun, Loops.ok_bind, loadPointer_eq hb₁ hn, Loops.ok_bind, hnext,
          storePointer_eq hb₁ hn]
      · rw [pointers_store hfp, hpointers, pointers_succ, List.map_append]
        rfl
      · exact hchanges.write hb₁ (by rw [length_encode]; omega)
      · intro x hx
        rw [bytes_write_out _ (by rw [length_encode]; omega)]
        exact hbehind x (by omega)

end Block

end Heap

end Memory
