import Hand2.InMemory.GrowableBuffer
import Hand2.Library.Pointers
import Hand2.StringArray
import Mathlib.Data.List.Induction

/-!
# `InMemory.StringArray` — string arrays (`hand_buffer.c`), pointer by pointer

The array of `StringArray` again, as it runs: its pointers are addresses in memory and point into a buffer that moves
when it grows. `append_string_array` writes twice, and each write may move the buffer; it compares the addresses before
and after, and moves the pointers along if they differ. If they agree the buffer has not moved, or it has moved away
and back, and the pointers are right as they are. The array of `StringArray` is what this one represents
(`Represents`), and appending to one is appending to the other (`append_yields`).
-/

namespace Hand2.InMemory

open Memory (Malloc Heap Source Trap Block Yields)

/-- `StringArray`. -/
structure StringArray where
  count : Int
  max : Int
  elem : Nat
  buffer : GrowableBuffer

/-- The block of the pointers. -/
def StringArray.block (array : StringArray) : Block := ⟨array.elem, 8 * array.max.toNat⟩

/-- `string_len`, from an address with so many behind it. -/
def stringLen (h : Heap) : Nat → Nat → Except Trap Nat
  | 0,          _      => .error .wild
  | behind + 1, string => do
      let c ← h.load string
      if c = 0 then .ok 0
      else
        let result ← stringLen h behind (string + 1)
        .ok (result + 1)

/-- `buffer->memory + (array->elem[i] - old_ptr)`. -/
def rebase (memory oldPtr pointer : Nat) : Nat := wrapSize (memory + (pointer + 18446744073709551616 - oldPtr))

section Functions

variable (malloc : Malloc)

/-- `reserve_string_array`. -/
def reserveStringArray (array : StringArray) (count : Int) (h : Heap) : Except Trap (StringArray × Heap) :=
  let total := cInt (array.count + count)
  if total > array.max then
    let allocated := cInt (nextPowOfTwo (UInt64.ofInt total)).toNat
    do
      let (elem, h) ← h.allocate malloc (UInt64.ofInt (allocated * 8)).toNat
      let h ← h.copy elem (.pointer array.elem) (UInt64.ofInt (array.count * 8)).toNat
      let h ← h.free array.elem
      .ok ({ array with max := allocated, elem }, h)
  else .ok (array, h)

/-- `allocate_string_array`. -/
def allocateStringArray (h : Heap) : Except Trap (StringArray × Heap) := do
  let (elem, h) ← h.allocate malloc (128 * 8)
  let (buffer, h) ← allocateGrowableBuffer malloc h
  .ok (⟨0, 128, elem, buffer⟩, h)

/-- `append_string_array`. -/
def appendStringArray (array : StringArray) (string : Nat) (h : Heap) : Except Trap (StringArray × Heap) := do
  let oldSize := array.buffer.used
  let oldPtr := array.buffer.memory
  let len ← stringLen h (Memory.addressLimit - string) string
  let (buffer, h) ← writeGrowableBuffer malloc array.buffer (.pointer string) len h
  let (buffer, h) ← writeGrowableBuffer malloc buffer (.literal [0, 0]) 1 h
  let h ← (if buffer.memory ≠ oldPtr then
      h.mapPointers (rebase buffer.memory oldPtr) array.elem array.count.toNat
    else .ok h)
  let (array, h) ← reserveStringArray malloc { array with buffer } 1 h
  let h ← h.storePointer (array.elem + 8 * array.count.toNat) (wrapSize (buffer.memory + oldSize))
  .ok ({ array with count := cInt (array.count + 1) }, h)

end Functions

/-! ## What an array represents -/

/-- The buffer of an array holds `data`, and its pointers are those at these distances from `base`. -/
structure Layout (h : Heap) (array : StringArray) (base : Nat) (offsets : List Nat) (data : List UInt8) : Prop where
  buffer : Holds h array.buffer data
  count : array.count = offsets.length
  block : array.block ∈ h.blocks
  room : offsets.length ≤ array.max.toNat
  elem_ne : array.elem ≠ array.buffer.memory
  pointers : h.pointers array.elem offsets.length = offsets.map (base + ·)

/-- The array in memory is this one. -/
structure Represents (h : Heap) (array : StringArray) (flat : Hand2.StringArray) : Prop where
  layout : Layout h array array.buffer.memory flat.elem flat.buffer
  max : array.max = flat.max
  hasRoom : flat.HasRoom

/-- A string with its terminator, at an address outside of a buffer. -/
structure StringOutside (h : Heap) (buffer : GrowableBuffer) (string : Nat) (s : CString) : Prop where
  outside : (Source.pointer string).Outside h buffer.memory (s.length + 1)
  read_eq : h.read string (s.length + 1) = s.bytes ++ [0]

section Specs

variable {malloc : Malloc} {h : Heap} {buffer : GrowableBuffer} {string : Nat} {s : CString}

/-- **`string_len`** of a string. -/
theorem stringLen_eq (hstring : StringOutside h buffer string s) {behind : Nat} (hbehind : s.length < behind) :
    stringLen h behind string = .ok s.length := by
  obtain ⟨bytes, hnoNul⟩ := s
  have hlive : ∀ i < bytes.length + 1, h.Live (string + i) := by
    intro i hi
    obtain ⟨b, hb, -, ha⟩ := hstring.outside i hi
    exact ⟨b, hb, ha⟩
  have hread : h.read string (bytes.length + 1) = bytes ++ [0] := hstring.read_eq
  replace hbehind : bytes.length < behind := hbehind
  clear hstring
  show stringLen h behind string = .ok bytes.length
  induction bytes generalizing string behind with
  | nil =>
      obtain ⟨behind, rfl⟩ := Nat.exists_eq_succ_of_ne_zero (Nat.ne_of_gt hbehind)
      have hzero : h.bytes string = 0 := (List.cons.inj hread).1
      have hload : h.load string = .ok (h.bytes string) := if_pos (hlive 0 Nat.one_pos)
      rw [stringLen, hload, Loops.ok_bind, if_pos hzero]
      rfl
  | cons c bytes ih =>
      obtain ⟨behind, rfl⟩ := Nat.exists_eq_succ_of_ne_zero (Nat.ne_of_gt (Nat.zero_lt_of_lt hbehind))
      rw [List.length_cons, Heap.read_succ] at hread
      obtain ⟨hfirst, hrest⟩ := List.cons.inj hread
      have hne : h.bytes string ≠ 0 := by
        rw [hfirst]
        exact fun h0 => hnoNul (h0 ▸ List.mem_cons_self)
      have hlater : ∀ i < bytes.length + 1, h.Live (string + 1 + i) := by
        intro i hi
        rw [Nat.add_assoc, Nat.add_comm 1 i]
        exact hlive (i + 1) (Nat.succ_lt_succ hi)
      have hlen := ih (fun h0 => hnoNul (List.mem_cons_of_mem c h0)) hlater hrest (Nat.lt_of_succ_lt_succ hbehind)
      have hload : h.load string = .ok (h.bytes string) := if_pos (hlive 0 (Nat.succ_pos _))
      rw [stringLen, hload, Loops.ok_bind, if_neg hne, hlen, Loops.ok_bind, List.length_cons]

/-! ## The steps of an append -/

section Steps

variable {array : StringArray} {flat : Hand2.StringArray} {base : Nat} {offsets : List Nat} {data : List UInt8}

theorem Layout.count_toNat (hlayout : Layout h array base offsets data) : array.count.toNat = offsets.length := by
  rw [hlayout.count, Int.toNat_natCast]

/-- The pointers are an object. -/
theorem Layout.object (hlayout : Layout h array base offsets data) : h.Object array.elem (8 * offsets.length) :=
  .inr ⟨_, hlayout.block, Nat.mul_le_mul_left 8 hlayout.room⟩

/-- The pointers stay with the bytes of their block. -/
theorem Layout.pointers_of_bytes (hlayout : Layout h array base offsets data) {h' : Heap}
    (hbytes : ∀ a, array.block.Contains a → h'.bytes a = h.bytes a) :
    h'.pointers array.elem offsets.length = offsets.map (base + ·) := by
  rw [← hlayout.pointers]
  apply Heap.pointers_congr
  intro i hi
  have hsize := Nat.lt_of_lt_of_le hi (Nat.mul_le_mul_left 8 hlayout.room)
  exact hbytes _ ⟨Nat.le_add_right _ _, Nat.add_lt_add_left hsize _⟩

/-- The buffer moves, and the pointers stay. -/
theorem Layout.buffer_moves (hlayout : Layout h array base offsets data) {h' : Heap} {buffer' : GrowableBuffer}
    {data' : List UInt8} (hmoves : h.Moves array.buffer.memory h' buffer'.memory) (hholds : Holds h' buffer' data') :
    Layout h' { array with buffer := buffer' } base offsets data' := by
  obtain ⟨helem, hblock, hbytes⟩ := hmoves _ hlayout.block hlayout.elem_ne
  exact ⟨hholds, hlayout.count, hblock, hlayout.room, helem, hlayout.pointers_of_bytes hbytes⟩

theorem rebase_eq {memory oldPtr offset : Nat} (h : memory + offset < 18446744073709551616) :
    rebase memory oldPtr (oldPtr + offset) = memory + offset := by
  have hdiff : oldPtr + offset + 18446744073709551616 - oldPtr = offset + 18446744073709551616 := by
    rw [Nat.add_assoc, Nat.add_sub_cancel_left]
  rw [rebase, hdiff, wrapSize, ← Nat.add_assoc, Nat.add_mod_right, Nat.mod_eq_of_lt h]

/-- **The pointers move along with the buffer**, or the buffer is where it was. -/
theorem Layout.fixUp (hlayout : Layout h array base offsets data)
    (hoffsets : ∀ offset ∈ offsets, array.buffer.memory + offset < Memory.addressLimit) :
    ∃ h', (if array.buffer.memory ≠ base then
        h.mapPointers (rebase array.buffer.memory base) array.elem array.count.toNat else .ok h) = .ok h' ∧
      Layout h' array array.buffer.memory offsets data := by
  have hrebase : ∀ offset ∈ offsets, rebase array.buffer.memory base (base + offset) = array.buffer.memory + offset :=
    fun offset hoffset => rebase_eq (Nat.lt_trans (hoffsets offset hoffset) (by decide))
  by_cases hdirty : array.buffer.memory ≠ base
  · have hfit : ∀ p ∈ h.pointers array.elem offsets.length,
        rebase array.buffer.memory base p < Memory.addressLimit := by
      intro p hp
      rw [hlayout.pointers] at hp
      obtain ⟨offset, hoffset, rfl⟩ := List.mem_map.mp hp
      rw [hrebase offset hoffset]
      exact hoffsets offset hoffset
    obtain ⟨h', hrun, hblocks, hmapped, hchanges⟩ :=
      Heap.mapPointers_eq hlayout.block (Nat.mul_le_mul_left 8 hlayout.room) hfit
    obtain ⟨-, hkeeps⟩ := hchanges.moves _ hlayout.buffer.block hlayout.elem_ne.symm
    rw [if_pos hdirty, hlayout.count_toNat]
    refine ⟨h', hrun, hlayout.buffer.keeps hkeeps, hlayout.count, hblocks ▸ hlayout.block, hlayout.room,
      hlayout.elem_ne, ?_⟩
    replace hmapped : h'.pointers array.elem offsets.length = (h.pointers array.elem offsets.length).map _ := hmapped
    rw [hmapped, hlayout.pointers, List.map_map]
    apply List.map_congr_left
    intro offset hoffset
    rw [Function.comp_apply]
    exact hrebase offset hoffset
  · rw [if_neg hdirty]
    have hbase := not_not.mp hdirty
    exact ⟨h, rfl, hlayout.buffer, hlayout.count, hlayout.block, hlayout.room, hlayout.elem_ne,
      hbase ▸ hlayout.pointers⟩

/-- One more pointer is stored. -/
theorem Layout.store (hlayout : Layout h array base offsets data) (hroom : offsets.length + 1 ≤ array.max.toNat)
    (hmax : offsets.length < maxStrings) {offset : Nat} (hoffset : base + offset < Memory.addressLimit) :
    ∃ h', h.storePointer (array.elem + 8 * array.count.toNat) (base + offset) = .ok h' ∧
      Layout h' { array with count := cInt (array.count + 1) } base (offsets ++ [offset]) data := by
  have hend : 8 * offsets.length + (Memory.encode 8 (base + offset)).length ≤ 8 * array.max.toNat := by
    rw [Memory.length_encode]
    exact Nat.mul_le_mul_left 8 hroom
  have hchanges := (Heap.Changes.refl h _).write hlayout.block hend
  obtain ⟨-, hkeeps⟩ := hchanges.moves _ hlayout.buffer.block hlayout.elem_ne.symm
  have hlen : (offsets ++ [offset]).length = offsets.length + 1 := List.length_append
  refine ⟨_, ?_, hlayout.buffer.keeps hkeeps, ?_, hlayout.block, hlen ▸ hroom, hlayout.elem_ne, ?_⟩
  · rw [hlayout.count_toNat]
    exact Heap.storePointer_eq hlayout.block (Nat.mul_le_mul_left 8 hroom) _
  · unfold maxStrings at hmax
    dsimp only
    rw [hlen, hlayout.count, cInt_eq (by omega) (by unfold intMax; omega)]
    rfl
  · show (h.write (array.elem + 8 * offsets.length) _).pointers array.elem (offsets ++ [offset]).length = _
    rw [hlen, Heap.pointers_store hoffset, hlayout.pointers, List.map_append]
    rfl

/-- The pointers move to a larger block. -/
theorem Layout.relocate (hlayout : Layout h array base offsets data) {n : Nat} (answer : Memory.Answer h (8 * n))
    (hn : offsets.length ≤ n) :
    Layout (((h.extend answer).write answer.start (h.read array.elem (8 * offsets.length))).release array.elem)
      { array with max := n, elem := answer.start } base offsets data := by
  have hlen : (h.read array.elem (8 * offsets.length)).length ≤ 8 * n := by
    rw [Heap.length_read]
    omega
  obtain ⟨helem, hkeeps⟩ :=
    (Heap.changes_relocate answer hlen).moves _ hlayout.buffer.block hlayout.elem_ne.symm
  refine ⟨hlayout.buffer.keeps hkeeps, hlayout.count, Heap.mem_relocate answer hlayout.object _, hn, helem.symm, ?_⟩
  rw [← hlayout.pointers]
  apply Heap.pointers_congr
  intro i hi
  rw [← Heap.getElem_read h (by rw [Heap.length_read]; exact hi)]
  exact Heap.bytes_write_in _ _

/-- There is no block for one more pointer, and the one of the array is full. -/
def PointersRefused (malloc : Malloc) (h : Heap) (array : StringArray) : Prop :=
  array.max < cInt (array.count + 1) ∧
    malloc h (UInt64.ofInt (cInt (nextPowOfTwo (UInt64.ofInt (cInt (array.count + 1)))).toNat * 8)).toNat = none

/-- **`reserve_string_array`** makes room for one more pointer, where the array without addresses does. -/
theorem reserveStrings_yields (malloc : Malloc) (hlayout : Layout h array base flat.elem data)
    (hmax : array.max = flat.max) (hroom : flat.HasRoom) :
    Yields (PointersRefused malloc h array) (reserveStringArray malloc array 1 h) fun p =>
      ∃ max elem, Hand2.reserveStringArray flat 1 = .ok max ∧ p.1 = { array with max, elem } ∧
        Layout p.2 p.1 base flat.elem data ∧ flat.elem.length + 1 ≤ p.1.max.toNat := by
  have hflat : Hand2.reserveStringArray flat 1 =
      if cInt (array.count + 1) > array.max then
        (Hand2.allocateMemory
          (UInt64.ofInt (cInt (nextPowOfTwo (UInt64.ofInt (cInt (array.count + 1)))).toNat * 8))).map
          fun _ => cInt (nextPowOfTwo (UInt64.ofInt (cInt (array.count + 1)))).toNat
      else .ok array.max := by
    rw [hlayout.count, hmax]
    rfl
  unfold reserveStringArray
  dsimp only
  by_cases hgrow : cInt (array.count + 1) > array.max
  · rw [if_pos hgrow] at hflat
    rw [if_pos hgrow]
    have hrefused :
        malloc h (UInt64.ofInt (cInt (nextPowOfTwo (UInt64.ofInt (cInt (array.count + 1)))).toNat * 8)).toNat = none →
          PointersRefused malloc h array :=
      fun hno => ⟨hgrow, hno⟩
    generalize cInt (nextPowOfTwo (UInt64.ofInt (cInt (array.count + 1)))).toNat = allocated at hflat hrefused
    refine (Heap.allocate_yields malloc h _).bind hrefused ?_
    rintro _ - ⟨answer, -, rfl⟩
    -- a block of that size exists, so it is not too large for the array without addresses either
    have hsize : (UInt64.ofInt (allocated * 8)).toNat < 9223372036854775808 :=
      Nat.lt_of_lt_of_le (Nat.lt_add_of_pos_left answer.start_pos) answer.end_le
    have hreserve : Hand2.reserveStringArray flat 1 = .ok allocated := by
      rw [hflat, allocateMemory_of_lt hsize]
      rfl
    obtain ⟨n, rfl, hroom', hn⟩ := room_of_reserve hroom hreserve
    unfold maxStrings at hn
    have hnew : (UInt64.ofInt ((n : Int) * 8)).toNat = 8 * n := by
      rw [toNat_ofInt (by omega) (by omega)]
      omega
    have hold : (UInt64.ofInt (array.count * 8)).toNat = 8 * flat.elem.length := by
      rw [hlayout.count, toNat_ofInt (by omega) (by omega)]
      omega
    generalize (UInt64.ofInt ((n : Int) * 8)).toNat = size at answer hnew
    subst hnew
    dsimp only
    rw [hold, Heap.copy_relocate answer hlayout.object (by omega), Loops.ok_bind,
      Heap.free_eq (hlayout.object.relocate answer _), Loops.ok_bind]
    exact .ok ⟨_, _, hreserve, rfl, hlayout.relocate answer (Nat.le_of_succ_le hroom'), hroom'⟩
  · rw [if_neg hgrow] at hflat
    rw [if_neg hgrow]
    obtain ⟨n, hn, hroom', -⟩ := room_of_reserve hroom hflat
    refine .ok ⟨_, _, hflat, rfl, hlayout, ?_⟩
    rw [hn, Int.toNat_natCast]
    exact hroom'

/-! ## Appending -/

/-- The bytes and the length of a string outside of the buffer. -/
theorem StringOutside.fits (hstring : StringOutside h buffer string s) (hholds : Holds h buffer data) :
    stringLen h (Memory.addressLimit - string) string = .ok s.length ∧
      (Source.pointer string).Outside h buffer.memory s.length ∧
      (Source.pointer string).bytes h s.length = s.bytes ∧ data.length + s.length < 9223372036854775808 := by
  have hroom := hholds.room
  have hsize := hstring.outside.add_size_le hholds.block (Nat.succ_pos _) (Nat.zero_lt_of_lt hroom)
  have hlast : string + s.length < Memory.addressLimit := by
    obtain ⟨b, hb, -, -, hend⟩ := hstring.outside s.length (Nat.lt_succ_self _)
    exact Nat.lt_of_lt_of_le hend (h.inRange b hb).2
  refine ⟨stringLen_eq hstring (by omega), hstring.outside.mono (Nat.le_succ _), ?_, ?_⟩
  · have hread := hstring.read_eq
    rw [Heap.read_add] at hread
    exact (List.append_inj hread (Heap.length_read _ _ _)).1
  · rw [← hholds.used_eq]
    simp only [GrowableBuffer.block, Memory.addressLimit] at hsize
    omega

/-- The bytes of a buffer have addresses. -/
theorem Holds.address_lt (hholds : Holds h buffer data) {offset : Nat} (hoffset : offset < data.length) :
    buffer.memory + offset < Memory.addressLimit := by
  have hroom := hholds.room
  obtain ⟨-, hend⟩ := h.inRange _ hholds.block
  rw [hholds.used_eq] at hroom
  simp only [GrowableBuffer.block] at hend
  omega

/-- The pointers move along, if the buffer has moved. -/
def fixUp (array : StringArray) (buffer : GrowableBuffer) (h : Heap) : Except Trap Heap :=
  if buffer.memory ≠ array.buffer.memory then
    h.mapPointers (rebase buffer.memory array.buffer.memory) array.elem array.count.toNat
  else .ok h

/-- One of the requests of an append is refused: for the string, for its terminator, or for its pointer. -/
inductive AppendRefused (malloc : Malloc) (array : StringArray) (string len : Nat) (h : Heap) : Prop where
  | string (hno : Refused malloc h array.buffer.max (array.buffer.used + len + 1))
  | terminator {buffer : GrowableBuffer} {h' : Heap}
      (hwrite : writeGrowableBuffer malloc array.buffer (.pointer string) len h = .ok (buffer, h'))
      (hno : Refused malloc h' buffer.max (buffer.used + 1 + 1))
  | pointer {buffer buffer' : GrowableBuffer} {h₁ h₂ h₃ : Heap}
      (hwrite : writeGrowableBuffer malloc array.buffer (.pointer string) len h = .ok (buffer, h₁))
      (hwrite' : writeGrowableBuffer malloc buffer (.literal [0, 0]) 1 h₁ = .ok (buffer', h₂))
      (hfix : fixUp array buffer' h₂ = .ok h₃) (hno : PointersRefused malloc h₃ array)

/-- **`append_string_array`** appends to the array without addresses. -/
theorem append_yields (malloc : Malloc) (hrep : Represents h array flat)
    (hstring : StringOutside h array.buffer string s) :
    Yields (AppendRefused malloc array string s.length h) (appendStringArray malloc array string h) fun p =>
      ∃ flat', Hand2.appendStringArray flat s = .ok flat' ∧ Represents p.2 p.1 flat' := by
  obtain ⟨hlayout, hmax, hroom⟩ := hrep
  obtain ⟨hlen, houtside, hbytes, hsize⟩ := hstring.fits hlayout.buffer
  unfold appendStringArray
  dsimp only
  rw [hlen, Loops.ok_bind]
  -- the string and its terminator are written, and the buffer may move twice
  refine (write_yields malloc (.inr hlayout.buffer.toFits) houtside hsize).bind .string ?_
  rintro ⟨buffer₁, h₁⟩ hwrite₁ ⟨hholds₁ : Holds h₁ buffer₁ _, hchanges₁⟩
  rw [hbytes] at hholds₁
  have hsize₁ : (flat.buffer ++ s.bytes).length + 1 < 9223372036854775808 := by
    have hmax₁ := hholds₁.max_lt
    have hroom₁ := hholds₁.room
    rw [hholds₁.used_eq] at hroom₁
    omega
  have hzero : (Source.literal [0, 0]).Outside h₁ buffer₁.memory 1 := (by decide : 1 ≤ 2)
  refine (write_yields malloc (.inr hholds₁.toFits) hzero hsize₁).bind (.terminator hwrite₁) ?_
  rintro ⟨buffer₂, h₂⟩ hwrite₂ ⟨hholds₂ : Holds h₂ buffer₂ _, hchanges₂⟩
  rw [show (Source.literal [0, 0]).bytes h₁ 1 = [0] from rfl, List.append_assoc] at hholds₂
  have hlayout₂ := hlayout.buffer_moves (hchanges₁.moves.trans hchanges₂.moves) hholds₂
  have haddress : ∀ offset ≤ flat.buffer.length, buffer₂.memory + offset < Memory.addressLimit := by
    intro offset hoffset
    apply hholds₂.address_lt
    rw [List.length_append, List.length_append, List.length_singleton]
    omega
  -- the pointers move along
  obtain ⟨h₃, hfix, hlayout₃⟩ :=
    hlayout₂.fixUp fun offset hoffset => haddress offset (Hand2.StringArray.le_of_mem_elem hoffset)
  dsimp only at hfix ⊢
  rw [hfix, Loops.ok_bind]
  -- the new one is stored
  refine (reserveStrings_yields malloc hlayout₃ hmax hroom).bind (.pointer hwrite₁ hwrite₂ hfix) ?_
  rintro ⟨_, h₄⟩ - ⟨max, elem, hreserve, rfl, hlayout₄, hroom₄⟩
  obtain ⟨flat', happend, hbuffer', helem', hmax'⟩ := append_of_reserve hreserve s
  have hfew : flat.elem.length < maxStrings := by
    obtain ⟨n, -, hle, hn⟩ := room_of_reserve hroom hreserve
    omega
  have hnew : wrapSize (buffer₂.memory + array.buffer.used) = buffer₂.memory + flat.buffer.length := by
    rw [hlayout.buffer.used_eq]
    exact wrapSize_eq (Nat.lt_trans (haddress _ (Nat.le_refl _)) (by decide))
  obtain ⟨h₅, hstore, hlayout₅⟩ := hlayout₄.store hroom₄ hfew (haddress _ (Nat.le_refl _))
  dsimp only at hstore ⊢
  rw [hnew, hstore, Loops.ok_bind]
  refine .ok ⟨flat', happend, ?_, hmax'.symm, hasRoom_of_append hroom happend⟩
  rw [hbuffer', helem']
  exact hlayout₅

/-- **`allocate_string_array`**. -/
theorem allocateStrings_yields (malloc : Malloc) (h : Heap) :
    Yields (malloc h (128 * 8) = none ∨
        ∃ answer, malloc h (128 * 8) = some answer ∧ malloc (h.extend answer) 4096 = none)
      (allocateStringArray malloc h) fun p => Represents p.2 p.1 Hand2.allocateStringArray := by
  refine (Heap.allocate_yields malloc h _).bind .inl ?_
  rintro _ - ⟨answer, hanswer, rfl⟩
  refine (allocate_yields malloc (h.extend answer)).bind (fun hno => .inr ⟨answer, hanswer, hno⟩) ?_
  rintro ⟨buffer, h'⟩ - ⟨hholds, hchanges⟩
  obtain ⟨hne, hblock, -⟩ := hchanges.moves ⟨answer.start, 128 * 8⟩ List.mem_cons_self (Nat.ne_of_gt answer.start_pos)
  exact .ok ⟨⟨hholds, rfl, hblock, Nat.zero_le _, hne, Heap.pointers_zero h' _⟩, rfl, hasRoom_allocateStringArray⟩

end Steps

end Specs

/-! ## Any appends in any memory -/

/-- The states of an array and of the memory, with the strings appended so far. Each append may meet another allocator,
    and in between other code may do anything to the rest of the memory. -/
inductive StringArray.Reached : StringArray → Heap → List CString → Prop where
  | allocate {h h' : Heap} {array : StringArray} (malloc : Malloc)
      (hrun : allocateStringArray malloc h = .ok (array, h')) : StringArray.Reached array h' []
  | append {h h' : Heap} {array array' : StringArray} {strings : List CString} (malloc : Malloc) {string : Nat}
      {s : CString} (hreached : StringArray.Reached array h strings)
      (hstring : StringOutside h array.buffer string s)
      (hrun : appendStringArray malloc array string h = .ok (array', h')) :
      StringArray.Reached array' h' (strings ++ [s])
  | other {h h' : Heap} {array : StringArray} {strings : List CString}
      (hreached : StringArray.Reached array h strings) (hbuffer : h.Keeps h' array.buffer.block)
      (helem : h.Keeps h' array.block) : StringArray.Reached array h' strings

/-- A string with its terminator in the block of a buffer. -/
structure StringInside (h : Heap) (buffer : GrowableBuffer) (pointer : Nat) (s : CString) : Prop where
  block : buffer.block ∈ h.blocks
  inside : ∀ i ≤ s.length, buffer.block.Contains (pointer + i)
  read_eq : h.read pointer (s.length + 1) = s.bytes ++ [0]

section Runs

variable {h h' : Heap} {array : StringArray} {strings : List CString}

theorem Layout.keeps {base : Nat} {offsets : List Nat} {data : List UInt8} (hlayout : Layout h array base offsets data)
    (hbuffer : h.Keeps h' array.buffer.block) (helem : h.Keeps h' array.block) :
    Layout h' array base offsets data := by
  obtain ⟨hblock, hbytes⟩ := helem
  exact ⟨hlayout.buffer.keeps hbuffer, hlayout.count, hblock, hlayout.room, hlayout.elem_ne,
    hlayout.pointers_of_bytes hbytes⟩

/-- Every array represents one with the strings appended. -/
theorem represents_of_reached (hreached : array.Reached h strings) :
    ∃ flat, Represents h array flat ∧ flat.strings = strings := by
  induction hreached with
  | allocate malloc hrun => exact ⟨_, (allocateStrings_yields malloc _).of_ok hrun, rfl⟩
  | append malloc hreached hstring hrun ih =>
      obtain ⟨flat, hrep, hstrings⟩ := ih
      obtain ⟨flat', happend, hrep'⟩ := (append_yields malloc hrep hstring).of_ok hrun
      exact ⟨flat', hrep', by rw [strings_of_append happend, hstrings]⟩
  | other hreached hbuffer helem ih =>
      obtain ⟨flat, ⟨hlayout, hmax, hroom⟩, hstrings⟩ := ih
      exact ⟨flat, ⟨hlayout.keeps hbuffer helem, hmax, hroom⟩, hstrings⟩

/-- The string behind a pointer. -/
theorem Represents.stringInside {flat : Hand2.StringArray} (hrep : Represents h array flat) {i : Nat}
    (hi : i < flat.elem.length) :
    StringInside h array.buffer (h.pointerAt (array.elem + 8 * i)) (flat.stringAt flat.elem[i]) := by
  obtain ⟨hlayout, -, -⟩ := hrep
  have hmem := List.getElem_mem hi
  generalize hoffset : flat.elem[i] = offset at hmem
  have hpointer : h.pointerAt (array.elem + 8 * i) = array.buffer.memory + offset := by
    have hlen : i < (h.pointers array.elem flat.elem.length).length := by
      rw [Heap.length_pointers]
      exact hi
    rw [← Heap.getElem_pointers h hlen]
    simp only [hlayout.pointers, List.getElem_map, hoffset]
  obtain ⟨rest, hrest⟩ := CString.exists_eq_append_zero (flat.terminated offset hmem)
  have hlength := congrArg List.length hrest
  rw [List.length_drop, List.length_append, List.length_cons] at hlength
  have hused := hlayout.buffer.used_eq
  have hroom := hlayout.buffer.room
  have hend : offset + ((flat.stringAt offset).length + 1) ≤ array.buffer.used := by
    show offset + ((CString.ofBytes (flat.buffer.drop offset)).bytes.length + 1) ≤ _
    omega
  rw [hpointer]
  refine ⟨hlayout.buffer.block, ?_, ?_⟩
  · intro i hi
    rw [Nat.add_assoc]
    exact ⟨Nat.le_add_right _ _, Nat.add_lt_add_left (show offset + i < array.buffer.max by omega) _⟩
  · rw [Heap.read_middle h hend, hlayout.buffer.read_eq, hrest, ← List.singleton_append, ← List.append_assoc]
    apply List.take_left'
    rw [List.length_append]
    rfl

/-- **An array keeps its strings.** There are as many as were appended, and each pointer is to a string in the block
    that the buffer has now, the one appended there. One more string is appended, unless the allocator refuses one of
    the blocks it takes. -/
theorem strings_kept (hreached : array.Reached h strings) :
    array.count = strings.length ∧
      (∀ i (hi : i < strings.length),
        StringInside h array.buffer (h.pointerAt (array.elem + 8 * i)) strings[i]) ∧
      ∀ malloc string s, StringOutside h array.buffer string s →
        Yields (AppendRefused malloc array string s.length h) (appendStringArray malloc array string h)
          fun p => p.1.Reached p.2 (strings ++ [s]) := by
  obtain ⟨flat, hrep, rfl⟩ := represents_of_reached hreached
  have hlen : flat.strings.length = flat.elem.length := List.length_map _
  refine ⟨?_, ?_, ?_⟩
  · rw [hrep.layout.count, hlen]
  · intro i hi
    have hi' : i < flat.elem.length := hlen ▸ hi
    have hstring : flat.strings[i] = flat.stringAt flat.elem[i] := List.getElem_map _
    rw [hstring]
    exact hrep.stringInside hi'
  · intro malloc string s hstring
    rcases append_yields malloc hrep hstring with hexit | ⟨p, hrun, -⟩
    · exact .inl hexit
    · exact .inr ⟨p, hrun, hreached.append malloc hstring hrun⟩

end Runs

/-! ## Where there is room

With the allocator that never uses an address again, the end of the blocks says how much room there is. Buffers of less
than `2 ^ 19` bytes and arrays of less than `4096` strings take an append at most `2 ^ 21` addresses. -/

section Room

variable {h : Heap} {buffer : GrowableBuffer} {array : StringArray} {flat : Hand2.StringArray} {source : Source}
  {size n : Nat} {s : CString}

/-- The power of two above a small number is small. -/
theorem nextPowOfTwo_small (h1 : 1 ≤ n) (hn : n ≤ 2 ^ 19) : (nextPowOfTwo (UInt64.ofNat n)).toNat ≤ 2 ^ 19 := by
  have hnat : (UInt64.ofNat n).toNat = n := UInt64.toNat_ofNat_of_lt (show n < 2 ^ 64 by omega)
  rw [toNat_nextPowOfTwo_of_le (by omega) (by omega), hnat]
  exact (Smear.isLeast_two_pow_size h1).2 ⟨⟨_, rfl⟩, hn⟩

theorem not_refused {max total : Nat} (htotal : total ≤ 2 ^ 19) (hroom : h.top + 2 ^ 19 ≤ Memory.addressLimit) :
    ¬ Refused .bump h max total := by
  rintro ⟨hmax, hno⟩
  have hfull := Malloc.bump_eq_none hno
  have hsmall := nextPowOfTwo_small (Nat.one_le_of_lt hmax) htotal
  omega

theorem top_of_reserve {p : GrowableBuffer × Heap} (hsize : buffer.used + size + 1 ≤ 2 ^ 19)
    (hrun : reserveGrowableBuffer .bump buffer size h = .ok p) :
    p.1.used = buffer.used ∧ p.2.top ≤ h.top + 2 ^ 19 + 1 := by
  unfold reserveGrowableBuffer at hrun
  dsimp only at hrun
  rw [wrapSize_eq (by omega)] at hrun
  split at hrun
  · have hsmall := nextPowOfTwo_small (Nat.le_add_left 1 (buffer.used + size)) hsize
    obtain ⟨⟨memory, h₁⟩, hallocate, hrun⟩ := Loops.bind_eq_ok hrun
    obtain ⟨h₂, hcopy, hrun⟩ := Loops.bind_eq_ok hrun
    obtain ⟨h₃, hstore, hrun⟩ := Loops.bind_eq_ok hrun
    obtain ⟨h₄, hfree, hrun⟩ := Loops.bind_eq_ok hrun
    obtain rfl := Except.ok.inj hrun
    refine ⟨rfl, ?_⟩
    calc h₄.top ≤ h₃.top := Heap.top_of_free hfree
      _ = h₂.top := Heap.top_congr (Heap.blocks_of_store hstore)
      _ = h₁.top := Heap.top_congr (Heap.blocks_of_copy hcopy)
      _ ≤ h.top + (nextPowOfTwo (UInt64.ofNat (buffer.used + size + 1))).toNat + 1 := Heap.top_of_allocate hallocate
      _ ≤ h.top + 2 ^ 19 + 1 := by omega
  · obtain rfl := Except.ok.inj hrun
    exact ⟨rfl, Nat.le_add_right h.top (2 ^ 19 + 1)⟩

theorem top_of_write {p : GrowableBuffer × Heap} (hsize : buffer.used + size + 1 ≤ 2 ^ 19)
    (hrun : writeGrowableBuffer .bump buffer source size h = .ok p) :
    p.1.used = buffer.used + size ∧ p.2.top ≤ h.top + 2 ^ 19 + 1 := by
  unfold writeGrowableBuffer at hrun
  obtain ⟨⟨buffer', h₁⟩, hreserve, hrun⟩ := Loops.bind_eq_ok hrun
  obtain ⟨h₂, hcopy, hrun⟩ := Loops.bind_eq_ok hrun
  obtain ⟨h₃, hstore, hrun⟩ := Loops.bind_eq_ok hrun
  obtain rfl := Except.ok.inj hrun
  obtain ⟨hused : buffer'.used = buffer.used, htop⟩ := top_of_reserve hsize hreserve
  refine ⟨?_, ?_⟩
  · show wrapSize (buffer'.used + size) = _
    rw [hused, wrapSize_eq (by omega)]
  · calc h₃.top = h₂.top := Heap.top_congr (Heap.blocks_of_store hstore)
      _ = h₁.top := Heap.top_congr (Heap.blocks_of_copy hcopy)
      _ ≤ h.top + 2 ^ 19 + 1 := htop

theorem top_of_fixUp {h' : Heap} (hrun : fixUp array buffer h = .ok h') : h'.top = h.top := by
  unfold fixUp at hrun
  split at hrun
  · exact Heap.top_congr (Heap.blocks_of_mapPointers hrun)
  · exact congrArg Heap.top (Except.ok.inj hrun).symm

/-- The pointers of few strings. -/
theorem pointers_small (hcount : array.count = n) (hn : n < 4096) :
    (UInt64.ofInt (cInt (nextPowOfTwo (UInt64.ofInt (cInt (array.count + 1)))).toNat * 8)).toNat ≤ 2 ^ 15 := by
  have htotal : cInt (array.count + 1) = (n + 1 : Nat) := by
    rw [hcount, cInt_eq (by omega) (by unfold intMax; omega)]
    rfl
  have hpow : 2 ^ n.size ≤ 2 ^ 12 := Nat.pow_le_pow_right (by omega) (Nat.size_le.mpr (by omega))
  rw [htotal, nextPowOfTwo_ofInt (Nat.le_add_left 1 n) (by omega), Nat.add_sub_cancel]
  generalize 2 ^ n.size = allocated at hpow
  rw [cInt_eq (by omega) (by unfold intMax; omega), toNat_ofInt (by omega) (by omega)]
  omega

theorem top_of_reserveStrings {p : StringArray × Heap} (hcount : array.count = n) (hn : n < 4096)
    (hrun : reserveStringArray .bump array 1 h = .ok p) : p.2.top ≤ h.top + 2 ^ 15 + 1 := by
  unfold reserveStringArray at hrun
  dsimp only at hrun
  split at hrun
  · have hsmall := pointers_small hcount hn
    obtain ⟨⟨elem, h₁⟩, hallocate, hrun⟩ := Loops.bind_eq_ok hrun
    obtain ⟨h₂, hcopy, hrun⟩ := Loops.bind_eq_ok hrun
    obtain ⟨h₃, hfree, hrun⟩ := Loops.bind_eq_ok hrun
    obtain rfl := Except.ok.inj hrun
    have htop := Heap.top_of_allocate hallocate
    calc h₃.top ≤ h₂.top := Heap.top_of_free hfree
      _ = h₁.top := Heap.top_congr (Heap.blocks_of_copy hcopy)
      _ ≤ h.top + 2 ^ 15 + 1 := by omega
  · obtain rfl := Except.ok.inj hrun
    exact Nat.le_add_right h.top (2 ^ 15 + 1)

/-- **An append where there is room** is granted, and takes no more than `2 ^ 21` addresses. -/
theorem append_of_room (hrep : Represents h array flat) {string : Nat} (hstring : StringOutside h array.buffer string s)
    (hbuffer : flat.buffer.length + s.length + 2 ≤ 2 ^ 19) (hcount : flat.elem.length < 4096)
    (hroom : h.top + 2 ^ 21 ≤ Memory.addressLimit) :
    ∃ p flat', appendStringArray .bump array string h = .ok p ∧ Hand2.appendStringArray flat s = .ok flat' ∧
      Represents p.2 p.1 flat' ∧ p.2.top ≤ h.top + 2 ^ 21 := by
  have hused := hrep.layout.buffer.used_eq
  have hcount' := hrep.layout.count
  have hgranted : ¬ AppendRefused .bump array string s.length h := by
    rintro (hno | ⟨hwrite, hno⟩ | ⟨hwrite, hwrite', hfix, hno⟩)
    · exact not_refused (by omega) (by omega) hno
    · obtain ⟨hused', htop⟩ := top_of_write (by omega) hwrite
      exact not_refused (by dsimp only at hused'; omega) (by dsimp only at htop; omega) hno
    · obtain ⟨hused', htop⟩ := top_of_write (by omega) hwrite
      obtain ⟨-, htop'⟩ := top_of_write (by dsimp only at hused'; omega) hwrite'
      have hfull := Malloc.bump_eq_none hno.2
      have hsmall := pointers_small hcount' hcount
      rw [top_of_fixUp hfix] at hfull
      dsimp only at htop htop'
      omega
  obtain ⟨p, hrun, flat', happend, hrep'⟩ := (append_yields .bump hrep hstring).of_granted hgranted
  refine ⟨p, flat', hrun, happend, hrep', ?_⟩
  obtain ⟨hlen, -⟩ := hstring.fits hrep.layout.buffer
  unfold appendStringArray at hrun
  dsimp only at hrun
  rw [hlen, Loops.ok_bind] at hrun
  obtain ⟨⟨buffer₁, h₁⟩, hwrite, hrun⟩ := Loops.bind_eq_ok hrun
  obtain ⟨⟨buffer₂, h₂⟩, hwrite', hrun⟩ := Loops.bind_eq_ok hrun
  obtain ⟨h₃, hfix, hrun⟩ := Loops.bind_eq_ok hrun
  obtain ⟨⟨array₄, h₄⟩, hreserve, hrun⟩ := Loops.bind_eq_ok hrun
  obtain ⟨h₅, hstore, hrun⟩ := Loops.bind_eq_ok hrun
  obtain rfl := Except.ok.inj hrun
  obtain ⟨hused' : buffer₁.used = _, htop₁ : h₁.top ≤ _⟩ := top_of_write (by omega) hwrite
  have hsize : buffer₁.used + 1 + 1 ≤ 2 ^ 19 := by omega
  obtain ⟨-, htop₂ : h₂.top ≤ _⟩ := top_of_write hsize hwrite'
  have htop₃ : h₃.top = h₂.top := top_of_fixUp hfix
  have hcount₂ : ({ array with buffer := buffer₂ } : StringArray).count = flat.elem.length := hcount'
  have htop₄ := top_of_reserveStrings hcount₂ hcount hreserve
  have htop₅ : h₅.top = h₄.top := Heap.top_congr (Heap.blocks_of_storePointer hstore)
  show h₅.top ≤ h.top + 2 ^ 21
  dsimp only at htop₂ htop₄
  omega

/-- Other code puts a string into a block of its own. -/
theorem string_beside (h : Heap) (s : CString) (hroom : h.top + (s.length + 1) ≤ Memory.addressLimit) :
    ∃ h' : Heap, (∀ b ∈ h.blocks, h.Keeps h' b) ∧ h'.top ≤ h.top + s.length + 2 ∧
      ∀ buffer : GrowableBuffer, buffer.block ∈ h.blocks → StringOutside h' buffer h.top s := by
  have hlen : (s.bytes ++ [(0 : UInt8)]).length = s.length + 1 := List.length_append
  let answer : Memory.Answer h (s.length + 1) :=
    ⟨h.top, fun i => (s.bytes ++ [0]).getD i 0, h.top_pos, hroom, fun _ hb => .inr (h.end_le_top hb)⟩
  refine ⟨h.extend answer, fun b hb => ?_, Heap.top_extend rfl, fun buffer hbuffer => ⟨fun i hi => ?_, ?_⟩⟩
  · exact ((Heap.changes_extend answer).moves b hb (Nat.ne_of_gt (h.inRange b hb).1)).2
  · exact ⟨⟨h.top, s.length + 1⟩, List.mem_cons_self, (answer.fresh _ hbuffer).start_ne, Nat.le_add_right _ _,
      Nat.add_lt_add_left hi _⟩
  · apply List.ext_getElem (by rw [Heap.length_read, hlen])
    intro i hi hi'
    have hlt : i < s.length + 1 := hlen ▸ hi'
    rw [Heap.getElem_read]
    show (if (Block.mk h.top (s.length + 1)).Contains (h.top + i) then
      (s.bytes ++ [0]).getD (h.top + i - h.top) 0 else _) = _
    rw [if_pos ⟨Nat.le_add_right _ _, Nat.add_lt_add_left hlt _⟩, Nat.add_sub_cancel_left,
      List.getD_eq_getElem _ _ hi']

/-- **Where there is room, all strings are appended**, one after the other. -/
theorem reached_of_room (strings : List CString) (hcount : strings.length ≤ 4096)
    (hsize : (strings.map fun s => s.length + 1).sum < 2 ^ 19) :
    ∃ (array : StringArray) (h : Heap) (flat : Hand2.StringArray), array.Reached h strings ∧
      Represents h array flat ∧ flat.strings = strings ∧
      flat.buffer.length = (strings.map fun s => s.length + 1).sum ∧ h.top ≤ 2 ^ 22 * (strings.length + 1) := by
  induction strings using List.reverseRecOn with
  | nil =>
      have hstart : (match allocateStringArray .bump .empty with
          | .ok p    => decide (p.2.top ≤ 2 ^ 22)
          | .error _ => false) = true := by decide +kernel
      split at hstart
      · next p hrun =>
          exact ⟨p.1, p.2, _, .allocate .bump hrun, (allocateStrings_yields .bump .empty).of_ok hrun, rfl, rfl,
            of_decide_eq_true hstart⟩
      · cases hstart
  | append_singleton strings s ih =>
      rw [List.map_append, List.sum_append] at hsize ⊢
      rw [List.length_append] at hcount ⊢
      simp only [List.map_singleton, List.sum_singleton, List.length_singleton] at hsize hcount ⊢
      obtain ⟨array, h, flat, hreached, hrep, hstrings, hlength, htop⟩ := ih (by omega) (by omega)
      have hfew : flat.elem.length = strings.length := by
        rw [← hstrings]
        exact (List.length_map _).symm
      have hend : h.top + 2 ^ 22 ≤ Memory.addressLimit := by
        unfold Memory.addressLimit
        omega
      obtain ⟨h', hkeeps, htop', houtside⟩ := string_beside h s (by omega)
      have hbuffer := hkeeps _ hrep.layout.buffer.block
      have helem := hkeeps _ hrep.layout.block
      have hrep' : Represents h' array flat := ⟨hrep.layout.keeps hbuffer helem, hrep.max, hrep.hasRoom⟩
      have hstring := houtside _ hrep.layout.buffer.block
      obtain ⟨p, flat', hrun, happend, hrep'', htop''⟩ :=
        append_of_room hrep' hstring (by omega) (by omega) (by omega)
      refine ⟨p.1, p.2, flat', (hreached.other hbuffer helem).append .bump hstring hrun, hrep'', ?_, ?_, by omega⟩
      · rw [strings_of_append happend, hstrings]
      · obtain ⟨max, -, rfl⟩ := Loops.map_eq_ok happend
        show (flat.buffer ++ (s.bytes ++ [0])).length = _
        rw [List.length_append, hlength, List.length_append]
        rfl

end Room

/-- Two hundred strings of forty letters. -/
def manyStrings : List CString :=
  (List.range 200).map fun i => CString.ofBytes (List.replicate 40 (UInt8.ofNat (97 + i % 26)))

/-- They do not fit the first block of the buffer, nor their pointers the first block of the array, so both have moved
    with strings in them. -/
theorem strings_kept_moved : ∃ (array : StringArray) (h : Heap), 4096 < array.buffer.max ∧ 128 < array.max ∧
    array.count = manyStrings.length ∧
      (∀ i (hi : i < manyStrings.length),
        StringInside h array.buffer (h.pointerAt (array.elem + 8 * i)) manyStrings[i]) ∧
      ∀ malloc string s, StringOutside h array.buffer string s →
        Yields (AppendRefused malloc array string s.length h) (appendStringArray malloc array string h)
          fun p => p.1.Reached p.2 (manyStrings ++ [s]) := by
  have hsum : (manyStrings.map fun s => s.length + 1).sum = 8200 := by decide +kernel
  have hlen : manyStrings.length = 200 := by decide +kernel
  obtain ⟨array, h, flat, hreached, hrep, hstrings, hlength, -⟩ :=
    reached_of_room manyStrings (by omega) (by omega)
  have hroom := hrep.layout.buffer.room
  have hused := hrep.layout.buffer.used_eq
  have hpointers := hrep.layout.room
  have hcount : flat.elem.length = manyStrings.length := by
    rw [← hstrings]
    exact (List.length_map _).symm
  exact ⟨array, h, by omega, by omega, strings_kept hreached⟩

end Hand2.InMemory
