import Hand2.Library.Memory
import Hand2.PowerOfTwo

/-!
# `InMemory.GrowableBuffer` — growable buffers (`hand_buffer.c`), byte by byte

A `GrowableBuffer` is a block of memory, how much of it is used, and how large it is; growing moves it to a larger
block. The functions here run on a memory with addresses and any allocator. A buffer is the concatenation of what was
written into it, with a terminator behind (`Holds`): every operation in every order keeps it so, and writes into no
other memory than the block of the buffer, unless the allocator refuses the block it needs (`growableBuffer_run`).
-/

namespace Hand2.InMemory

open Memory (Malloc Heap Source Trap Block Yields)

/-- Arithmetic of `size_t`. -/
def wrapSize (n : Nat) : Nat := n % 18446744073709551616

/-- `GrowableBuffer`. -/
structure GrowableBuffer where
  used : Nat
  max : Nat
  memory : Nat
  deriving DecidableEq

/-- The struct of zeros. -/
def GrowableBuffer.zero : GrowableBuffer := ⟨0, 0, 0⟩

/-- The block of a buffer. -/
def GrowableBuffer.block (buffer : GrowableBuffer) : Block := ⟨buffer.memory, buffer.max⟩

section Functions

variable (malloc : Malloc)

/-- `free_growable_buffer`. -/
def freeGrowableBuffer (buffer : GrowableBuffer) (h : Heap) : Except Trap (GrowableBuffer × Heap) := do
  let h ← h.free buffer.memory
  .ok (.zero, h)

/-- `reserve_growable_buffer`. -/
def reserveGrowableBuffer (buffer : GrowableBuffer) (size : Nat) (h : Heap) :
    Except Trap (GrowableBuffer × Heap) :=
  let totalSize := wrapSize (buffer.used + size + 1)
  if totalSize > buffer.max then
    let allocatedSize := (nextPowOfTwo (UInt64.ofNat totalSize)).toNat
    do
      let (memory, h) ← h.allocate malloc allocatedSize
      let h ← h.copy memory (.pointer buffer.memory) buffer.used
      let h ← h.store (memory + buffer.used) 0
      let h ← h.free buffer.memory
      .ok ({ buffer with max := allocatedSize, memory }, h)
  else .ok (buffer, h)

/-- `write_growable_buffer`. -/
def writeGrowableBuffer (buffer : GrowableBuffer) (data : Source) (size : Nat) (h : Heap) :
    Except Trap (GrowableBuffer × Heap) := do
  let (buffer, h) ← reserveGrowableBuffer malloc buffer size h
  let h ← h.copy (buffer.memory + buffer.used) data size
  let buffer := { buffer with used := wrapSize (buffer.used + size) }
  let h ← h.store (buffer.memory + buffer.used) 0
  .ok (buffer, h)

/-- `null_terminate`. -/
def nullTerminate (buffer : GrowableBuffer) (h : Heap) : Except Trap (GrowableBuffer × Heap) := do
  let (buffer, h) ← reserveGrowableBuffer malloc buffer 0 h
  let h ← h.store (buffer.memory + buffer.used) 0
  .ok (buffer, h)

/-- `clear_growable_buffer`. -/
def clearGrowableBuffer (buffer : GrowableBuffer) (h : Heap) : Except Trap (GrowableBuffer × Heap) :=
  nullTerminate malloc { buffer with used := 0 } h

/-- `allocate_growable_buffer`. -/
def allocateGrowableBuffer (h : Heap) : Except Trap (GrowableBuffer × Heap) := do
  let (memory, h) ← h.allocate malloc 4096
  nullTerminate malloc ⟨0, 4096, memory⟩ h

/-- What `linux_exec_process` does when a pipe has something: `read` puts `data` behind what is used, at most as much
    as there was room made for. -/
def readIntoGrowableBuffer (buffer : GrowableBuffer) (maxByteRead : Nat) (data : List UInt8) (h : Heap) :
    Except Trap (GrowableBuffer × Heap) := do
  let (buffer, h) ← reserveGrowableBuffer malloc buffer maxByteRead h
  let h ← h.copy (buffer.memory + buffer.used) (.literal data) data.length
  nullTerminate malloc { buffer with used := wrapSize (buffer.used + data.length) } h

end Functions

/-! ## What a buffer holds -/

/-- The buffer has these bytes in its block, and room for one more. -/
structure Fits (h : Heap) (buffer : GrowableBuffer) (data : List UInt8) : Prop where
  block : buffer.block ∈ h.blocks
  room : buffer.used < buffer.max
  read_eq : h.read buffer.memory buffer.used = data

/-- There is a terminator behind what is used. -/
def Terminated (h : Heap) (buffer : GrowableBuffer) : Prop := h.bytes (buffer.memory + buffer.used) = 0

/-- **A buffer holds its data**, and a terminator behind. -/
structure Holds (h : Heap) (buffer : GrowableBuffer) (data : List UInt8) : Prop extends Fits h buffer data where
  terminated : Terminated h buffer

/-- A buffer between two operations. -/
def Valid (h : Heap) (buffer : GrowableBuffer) (data : List UInt8) : Prop :=
  (buffer = .zero ∧ data = []) ∨ Holds h buffer data

section Specs

variable {malloc : Malloc} {h : Heap} {buffer : GrowableBuffer} {data : List UInt8}

theorem Fits.used_eq (hfits : Fits h buffer data) : buffer.used = data.length := by
  rw [← hfits.read_eq, Heap.length_read]

/-- A block has fewer than `2^63` bytes. -/
theorem Fits.max_lt (hfits : Fits h buffer data) : buffer.max < 9223372036854775808 := by
  obtain ⟨hpos, hend⟩ := h.inRange _ hfits.block
  simp only [GrowableBuffer.block, Memory.addressLimit] at hpos hend
  omega

theorem wrapSize_eq {n : Nat} (h : n < 18446744073709551616) : wrapSize n = n := Nat.mod_eq_of_lt h

/-- Where there is room, nothing happens. -/
theorem reserve_eq_of_room {size : Nat} (hroom : buffer.used + size < buffer.max) :
    reserveGrowableBuffer malloc buffer size h = .ok (buffer, h) := by
  apply if_neg
  have hle : wrapSize (buffer.used + size + 1) ≤ buffer.used + size + 1 := Nat.mod_le _ _
  omega

/-- A buffer that may lack its terminator. -/
def Unterminated (h : Heap) (buffer : GrowableBuffer) (data : List UInt8) : Prop :=
  (buffer = .zero ∧ data = []) ∨ Fits h buffer data

theorem Valid.unterminated (hvalid : Valid h buffer data) : Unterminated h buffer data :=
  hvalid.imp_right Holds.toFits

/-- What is used of a buffer is an object. -/
theorem Unterminated.object (hbuffer : Unterminated h buffer data) :
    h.Object buffer.memory buffer.used ∧ h.read buffer.memory buffer.used = data ∧ buffer.used = data.length := by
  rcases hbuffer with ⟨rfl, rfl⟩ | hfits
  · exact ⟨.inl ⟨rfl, rfl⟩, rfl, rfl⟩
  · exact ⟨.inr ⟨buffer.max, hfits.block, Nat.le_of_lt hfits.room⟩, hfits.read_eq, hfits.used_eq⟩

/-- A fresh block with the data and a terminator. -/
theorem holds_relocate {size start n : Nat} (answer : Memory.Answer h size) (hobject : h.Object start n)
    (hsize : data.length < size) :
    Holds (((h.extend answer).write answer.start (data ++ [0])).release start) ⟨data.length, size, answer.start⟩
      data where
  block := Heap.mem_relocate answer hobject _
  room := hsize
  read_eq := Heap.read_write_prefix (h.extend answer) answer.start data [0]
  terminated := by
    have hlast := Heap.bytes_write_in (h.extend answer) (a := answer.start) (i := data.length)
      (show data.length < (data ++ [(0 : UInt8)]).length by rw [List.length_append]; exact Nat.lt_succ_self _)
    rwa [List.getElem_append_right (Nat.le_refl _), List.getElem_singleton] at hlast

/-- The block is filled and terminated, and takes the place of the old one. -/
theorem grow_eq {size : Nat} (answer : Memory.Answer h size) (hbuffer : Unterminated h buffer data)
    (hsize : data.length < size) :
    (do
      let h ← (h.extend answer).copy answer.start (.pointer buffer.memory) buffer.used
      let h ← h.store (answer.start + buffer.used) 0
      let h ← h.free buffer.memory
      Except.ok (({ buffer with max := size, memory := answer.start } : GrowableBuffer), h)) =
      .ok (⟨data.length, size, answer.start⟩,
        ((h.extend answer).write answer.start (data ++ [0])).release buffer.memory) := by
  obtain ⟨hobject, hread, hused⟩ := hbuffer.object
  have hcopy := Heap.copy_relocate answer hobject (show buffer.used ≤ size by omega)
  have hlast : (Block.mk answer.start size).Contains (answer.start + data.length) :=
    ⟨Nat.le_add_right _ _, Nat.add_lt_add_left hsize _⟩
  have hstore : ((h.extend answer).write answer.start data).store (answer.start + data.length) 0 =
      .ok ((h.extend answer).write answer.start (data ++ [0])) := by
    rw [Heap.store_eq (b := ⟨answer.start, size⟩) List.mem_cons_self hlast, Heap.write_write]
  rw [hcopy, Loops.ok_bind, hread, hused, hstore, Loops.ok_bind, Heap.free_eq (hobject.relocate answer _),
    Loops.ok_bind]

/-- There is no block for `total` bytes, and the one of `max` bytes is too small for them. -/
def Refused (malloc : Malloc) (h : Heap) (max total : Nat) : Prop :=
  max < total ∧ malloc h (nextPowOfTwo (UInt64.ofNat total)).toNat = none

/-- **`reserve_growable_buffer`** makes room and keeps the data. -/
theorem reserve_yields (malloc : Malloc) (hbuffer : Unterminated h buffer data) {size : Nat}
    (hsize : data.length + size < 9223372036854775808) :
    Yields (Refused malloc h buffer.max (buffer.used + size + 1)) (reserveGrowableBuffer malloc buffer size h) fun p =>
      Fits p.2 p.1 data ∧ data.length + size < p.1.max ∧ (Valid h buffer data → Terminated p.2 p.1) ∧
        h.Changes buffer.memory p.2 p.1.block := by
  obtain ⟨hobject, -, hused⟩ := hbuffer.object
  have htotal : wrapSize (buffer.used + size + 1) = data.length + size + 1 := by
    rw [hused]
    exact wrapSize_eq (by omega)
  unfold reserveGrowableBuffer
  dsimp only
  rw [htotal]
  by_cases hgrow : data.length + size + 1 > buffer.max
  · rw [if_pos hgrow]
    have hle := le_nextPowOfTwo_ofNat (Nat.le_add_left 1 (data.length + size)) hsize
    have hrefused : malloc h (nextPowOfTwo (UInt64.ofNat (data.length + size + 1))).toNat = none →
        Refused malloc h buffer.max (buffer.used + size + 1) := by
      rw [hused]
      exact fun hno => ⟨hgrow, hno⟩
    generalize (nextPowOfTwo (UInt64.ofNat (data.length + size + 1))).toNat = allocatedSize at hle hrefused
    refine (Heap.allocate_yields malloc h allocatedSize).bind hrefused ?_
    rintro _ - ⟨answer, -, rfl⟩
    have hroom : data.length < allocatedSize := by omega
    have hholds := holds_relocate answer hobject hroom
    have hlen : (data ++ [(0 : UInt8)]).length ≤ allocatedSize := by
      rw [List.length_append, List.length_singleton]
      exact hroom
    dsimp only
    rw [grow_eq answer hbuffer hroom]
    exact .ok ⟨hholds.toFits, Nat.lt_of_succ_le hle, fun _ => hholds.terminated, Heap.changes_relocate answer hlen⟩
  · rw [if_neg hgrow]
    have hfits : Fits h buffer data := by
      rcases hbuffer with ⟨rfl, -⟩ | hfits
      · exact absurd (Nat.succ_pos _) hgrow
      · exact hfits
    refine .ok ⟨hfits, Nat.lt_of_succ_le (Nat.not_lt.mp hgrow), ?_, Heap.Changes.refl h buffer.block⟩
    rintro (⟨rfl, -⟩ | hholds)
    · exact absurd (Nat.succ_pos _) hgrow
    · exact hholds.terminated

/-! ## The operations -/

/-- Bytes are put behind what is used. -/
theorem Fits.append (hfits : Fits h buffer data) {bytes : List UInt8}
    (hroom : buffer.used + bytes.length < buffer.max) :
    Fits (h.write (buffer.memory + buffer.used) bytes) { buffer with used := buffer.used + bytes.length }
      (data ++ bytes) where
  block := hfits.block
  room := hroom
  read_eq := by
    show (h.write (buffer.memory + buffer.used) bytes).read buffer.memory (buffer.used + bytes.length) = _
    rw [Heap.read_add, Heap.read_write_before, Heap.read_write, hfits.read_eq]

/-- A terminator is put behind what is used. -/
theorem Fits.terminate (hfits : Fits h buffer data) :
    h.store (buffer.memory + buffer.used) 0 = .ok (h.write (buffer.memory + buffer.used) [0]) ∧
      Holds (h.write (buffer.memory + buffer.used) [0]) buffer data := by
  have hroom := hfits.room
  refine ⟨Heap.store_eq hfits.block ⟨Nat.le_add_right _ _, Nat.add_lt_add_left hroom _⟩ 0, ?_⟩
  refine ⟨⟨hfits.block, hfits.room, ?_⟩, ?_⟩
  · rw [Heap.read_write_before]
    exact hfits.read_eq
  · exact Heap.bytes_write_in h (i := 0) (show 0 < [(0 : UInt8)].length from Nat.one_pos)

/-- The buffer was changed to hold its data. -/
def Becomes (h : Heap) (start : Nat) (data : List UInt8) (p : GrowableBuffer × Heap) : Prop :=
  Holds p.2 p.1 data ∧ h.Changes start p.2 p.1.block

/-- Bytes are copied behind what is used, and terminated. -/
theorem Fits.becomes {start : Nat} {h' : Heap} (hfits : Fits h' buffer data)
    (hchanges : h.Changes start h' buffer.block) {bytes : List UInt8}
    (hroom : buffer.used + bytes.length < buffer.max) :
    Becomes h start (data ++ bytes) ({ buffer with used := buffer.used + bytes.length },
      (h'.write (buffer.memory + buffer.used) bytes).write (buffer.memory + (buffer.used + bytes.length)) [0]) := by
  have hcopied : h.Changes start (h'.write (buffer.memory + buffer.used) bytes) buffer.block :=
    hchanges.write hfits.block (Nat.le_of_lt hroom)
  have hfits' := hfits.append hroom
  refine ⟨hfits'.terminate.2, ?_⟩
  exact hcopied.write hfits'.block (show buffer.used + bytes.length + 1 ≤ buffer.max from hroom)

/-- `null_terminate` where there is room. -/
theorem nullTerminate_of_fits (hfits : Fits h buffer data) :
    nullTerminate malloc buffer h = .ok (buffer, h.write (buffer.memory + buffer.used) [0]) := by
  unfold nullTerminate
  rw [reserve_eq_of_room (show buffer.used + 0 < buffer.max from hfits.room), Loops.ok_bind]
  dsimp only
  rw [hfits.terminate.1, Loops.ok_bind]

/-- **`null_terminate`**. -/
theorem nullTerminate_yields (malloc : Malloc) (hbuffer : Unterminated h buffer data) :
    Yields (Refused malloc h buffer.max (buffer.used + 1)) (nullTerminate malloc buffer h)
      (Becomes h buffer.memory data) := by
  have hlen : data.length + 0 < 9223372036854775808 := by
    rcases hbuffer with ⟨-, rfl⟩ | hfits
    · decide
    · have hmax := hfits.max_lt
      have hroom := hfits.room
      have hused := hfits.used_eq
      omega
  refine (reserve_yields malloc hbuffer hlen).bind id ?_
  rintro ⟨buffer', h'⟩ - ⟨hfits, -, -, hchanges⟩
  dsimp only
  rw [hfits.terminate.1, Loops.ok_bind]
  exact .ok ⟨hfits.terminate.2, hchanges.write hfits.block hfits.room⟩

/-- Copying behind what is used, where there is room. -/
theorem Fits.copy (hfits : Fits h buffer data) {source : Source} {size : Nat}
    (hsource : source.Outside h buffer.memory size) (hroom : data.length + size < buffer.max) :
    h.copy (buffer.memory + buffer.used) source size =
        .ok (h.write (buffer.memory + buffer.used) (source.bytes h size)) ∧
      wrapSize (buffer.used + size) = buffer.used + (source.bytes h size).length ∧
      buffer.used + (source.bytes h size).length < buffer.max := by
  have hused := hfits.used_eq
  have hmax := hfits.max_lt
  rw [Source.length_bytes hsource]
  refine ⟨?_, wrapSize_eq (by omega), by omega⟩
  apply Heap.copy_eq hfits.block (Nat.le_add_right _ _) _ hsource
  show buffer.memory + buffer.used + size ≤ buffer.memory + buffer.max
  omega

/-- **`write_growable_buffer`** puts the data behind what was there. -/
theorem write_yields (malloc : Malloc) (hbuffer : Unterminated h buffer data) {source : Source} {size : Nat}
    (hsource : source.Outside h buffer.memory size) (hsize : data.length + size < 9223372036854775808) :
    Yields (Refused malloc h buffer.max (buffer.used + size + 1)) (writeGrowableBuffer malloc buffer source size h)
      (Becomes h buffer.memory (data ++ source.bytes h size)) := by
  refine (reserve_yields malloc hbuffer hsize).bind id ?_
  rintro ⟨buffer', h'⟩ - ⟨hfits : Fits h' buffer' data, hroom : data.length + size < buffer'.max, -,
    hchanges : h.Changes buffer.memory h' buffer'.block⟩
  -- what is copied stays where it is when the buffer moves
  obtain ⟨hsource', hbytes⟩ := hsource.moves hchanges.moves
  obtain ⟨hcopy, hwrap, hroom'⟩ := hfits.copy hsource' hroom
  dsimp only
  rw [hcopy, Loops.ok_bind, hwrap, (hfits.append hroom').terminate.1, Loops.ok_bind, ← hbytes]
  exact .ok (hfits.becomes hchanges hroom')

/-- Reading a pipe puts what is read behind what was there. -/
theorem readInto_yields (malloc : Malloc) (hbuffer : Unterminated h buffer data) {maxByteRead : Nat}
    {bytes : List UInt8} (hbytes : bytes.length ≤ maxByteRead)
    (hsize : data.length + maxByteRead < 9223372036854775808) :
    Yields (Refused malloc h buffer.max (buffer.used + maxByteRead + 1))
      (readIntoGrowableBuffer malloc buffer maxByteRead bytes h) (Becomes h buffer.memory (data ++ bytes)) := by
  refine (reserve_yields malloc hbuffer hsize).bind id ?_
  rintro ⟨buffer', h'⟩ - ⟨hfits : Fits h' buffer' data, hroom : data.length + maxByteRead < buffer'.max, -,
    hchanges : h.Changes buffer.memory h' buffer'.block⟩
  have hread : (Source.literal bytes).bytes h' bytes.length = bytes := List.take_length
  have hsource : (Source.literal bytes).Outside h' buffer'.memory bytes.length := Nat.le_refl bytes.length
  obtain ⟨hcopy, hwrap, hroom'⟩ := hfits.copy hsource (Nat.lt_of_le_of_lt (Nat.add_le_add_left hbytes _) hroom)
  rw [hread] at hcopy hwrap hroom'
  dsimp only
  rw [hcopy, Loops.ok_bind, hwrap, nullTerminate_of_fits (hfits.append hroom')]
  exact .ok (hfits.becomes hchanges hroom')

/-- **`clear_growable_buffer`**. -/
theorem clear_yields (malloc : Malloc) (hbuffer : Unterminated h buffer data) :
    Yields (Refused malloc h buffer.max 1) (clearGrowableBuffer malloc buffer h) (Becomes h buffer.memory []) := by
  have hcleared : Unterminated h { buffer with used := 0 } [] := by
    rcases hbuffer with ⟨rfl, -⟩ | hfits
    · exact .inl ⟨rfl, rfl⟩
    · exact .inr ⟨hfits.block, Nat.zero_lt_of_lt hfits.room, rfl⟩
  exact nullTerminate_yields malloc hcleared

/-- **`allocate_growable_buffer`**. -/
theorem allocate_yields (malloc : Malloc) (h : Heap) :
    Yields (malloc h 4096 = none) (allocateGrowableBuffer malloc h) (Becomes h 0 []) := by
  refine (Heap.allocate_yields malloc h 4096).bind id ?_
  rintro _ - ⟨answer, -, rfl⟩
  have hfits : Fits (h.extend answer) ⟨0, 4096, answer.start⟩ [] := ⟨List.mem_cons_self, (by decide : 0 < 4096), rfl⟩
  dsimp only
  rw [nullTerminate_of_fits hfits]
  exact .ok ⟨hfits.terminate.2, (Heap.changes_extend answer).write hfits.block hfits.room⟩

/-- **`free_growable_buffer`** writes nothing. -/
theorem free_eq (hbuffer : Unterminated h buffer data) :
    freeGrowableBuffer buffer h = .ok (.zero, h.release buffer.memory) := by
  unfold freeGrowableBuffer
  rw [Heap.free_eq hbuffer.object.1, Loops.ok_bind]

end Specs

/-! ## Any operations in any order -/

/-- The operations on a buffer. -/
inductive Operation where
  | write (data : Source) (size : Nat)
  | reserve (size : Nat)
  | readInto (maxByteRead : Nat) (data : List UInt8)
  | nullTerminate
  | clear
  | free

namespace Operation

/-- An operation. -/
def run (malloc : Malloc) (buffer : GrowableBuffer) (h : Heap) : Operation → Except Trap (GrowableBuffer × Heap)
  | .write data size           => writeGrowableBuffer malloc buffer data size h
  | .reserve size              => reserveGrowableBuffer malloc buffer size h
  | .readInto maxByteRead data => readIntoGrowableBuffer malloc buffer maxByteRead data h
  | .nullTerminate             => InMemory.nullTerminate malloc buffer h
  | .clear                     => clearGrowableBuffer malloc buffer h
  | .free                      => freeGrowableBuffer buffer h

/-- What is written comes from outside the buffer, `read` gives no more than it is asked for, and the buffer stays
    below `2^63` bytes. -/
def Allowed (h : Heap) (buffer : GrowableBuffer) : Operation → Prop
  | .write data size           => data.Outside h buffer.memory size ∧ buffer.used + size < 9223372036854775808
  | .reserve size              => buffer.used + size < 9223372036854775808
  | .readInto maxByteRead data =>
      data.length ≤ maxByteRead ∧ buffer.used + maxByteRead < 9223372036854775808
  | .nullTerminate             => True
  | .clear                     => True
  | .free                      => True

instance (h : Heap) (buffer : GrowableBuffer) (operation : Operation) : Decidable (operation.Allowed h buffer) :=
  match operation with
  | .write data size           => inferInstanceAs (Decidable (data.Outside h buffer.memory size ∧ _ < _))
  | .reserve size              => inferInstanceAs (Decidable (buffer.used + size < 9223372036854775808))
  | .readInto maxByteRead data =>
      inferInstanceAs (Decidable (data.length ≤ maxByteRead ∧ buffer.used + maxByteRead < 9223372036854775808))
  | .nullTerminate             => inferInstanceAs (Decidable True)
  | .clear                     => inferInstanceAs (Decidable True)
  | .free                      => inferInstanceAs (Decidable True)

/-- The bytes an operation makes room for, the terminator among them. -/
def total (buffer : GrowableBuffer) : Operation → Nat
  | .write _ size           => buffer.used + size + 1
  | .reserve size           => buffer.used + size + 1
  | .readInto maxByteRead _ => buffer.used + maxByteRead + 1
  | .nullTerminate          => buffer.used + 1
  | .clear                  => 1
  | .free                   => 0

/-- What has been written since the last `clear` or `free`, after an operation. -/
def after (h : Heap) (data : List UInt8) : Operation → List UInt8
  | .write source size => data ++ source.bytes h size
  | .reserve _         => data
  | .readInto _ bytes  => data ++ bytes
  | .nullTerminate     => data
  | .clear             => []
  | .free              => []

end Operation

namespace GrowableBuffer

/-- The states of a buffer and of the memory, with what has been written since the last `clear` or `free`. Each
    operation may meet another allocator, and in between other code may do anything to the rest of the memory. -/
inductive Reached : GrowableBuffer → Heap → List UInt8 → Prop where
  | zero (h : Heap) : Reached .zero h []
  | allocate {h h' : Heap} {buffer : GrowableBuffer} (malloc : Malloc)
      (hrun : allocateGrowableBuffer malloc h = .ok (buffer, h')) : Reached buffer h' []
  | operate {buffer buffer' : GrowableBuffer} {h h' : Heap} {data : List UInt8} (malloc : Malloc)
      (operation : Operation) (hreached : Reached buffer h data) (hallowed : operation.Allowed h buffer)
      (hrun : operation.run malloc buffer h = .ok (buffer', h')) : Reached buffer' h' (operation.after h data)
  | other {buffer : GrowableBuffer} {h h' : Heap} {data : List UInt8} (hreached : Reached buffer h data)
      (hkeeps : buffer.block ∈ h.blocks → h.Keeps h' buffer.block) : Reached buffer h' data

end GrowableBuffer

section Runs

variable {h h' : Heap} {buffer : GrowableBuffer} {data : List UInt8}

/-- What an operation does: all but `free` make the buffer hold the data and write only into its block; `free` writes
    nothing. -/
def Does (operation : Operation) (h : Heap) (buffer : GrowableBuffer) (data : List UInt8) (p : GrowableBuffer × Heap) :
    Prop :=
  (operation ≠ .free → Becomes h buffer.memory (operation.after h data) p) ∧
    (operation = .free → p.1 = .zero ∧ p.2.written = h.written)

/-- One operation. -/
theorem operation_yields (malloc : Malloc) (hvalid : Valid h buffer data) (operation : Operation)
    (hallowed : operation.Allowed h buffer) :
    Yields (Refused malloc h buffer.max (operation.total buffer)) (operation.run malloc buffer h)
      (Does operation h buffer data) := by
  have hbuffer := hvalid.unterminated
  have hused := hbuffer.object.2.2
  -- all but `free` make the buffer hold the data
  have hdoes : operation ≠ .free → ∀ p, Becomes h buffer.memory (operation.after h data) p →
      Does operation h buffer data p :=
    fun hne p hp => ⟨fun _ => hp, fun heq => absurd heq hne⟩
  cases operation with
  | write source size =>
      refine (write_yields malloc hbuffer hallowed.1 ?_).mono id (hdoes (by simp))
      rw [← hused]
      exact hallowed.2
  | reserve size =>
      refine (reserve_yields malloc hbuffer (hused ▸ hallowed)).mono id ?_
      rintro p ⟨hfits, -, hterminated, hchanges⟩
      exact hdoes (by simp) p ⟨⟨hfits, hterminated hvalid⟩, hchanges⟩
  | readInto maxByteRead bytes =>
      refine (readInto_yields malloc hbuffer hallowed.1 ?_).mono id (hdoes (by simp))
      rw [← hused]
      exact hallowed.2
  | nullTerminate => exact (nullTerminate_yields malloc hbuffer).mono id (hdoes (by simp))
  | clear => exact (clear_yields malloc hbuffer).mono id (hdoes (by simp))
  | free => exact .inr ⟨_, free_eq hbuffer, fun hne => absurd rfl hne, fun _ => ⟨rfl, rfl⟩⟩

/-- A buffer is left as it is by what leaves its block as it is. -/
theorem Holds.keeps (hholds : Holds h buffer data) (hkeeps : h.Keeps h' buffer.block) : Holds h' buffer data := by
  obtain ⟨hmem, hbytes⟩ := hkeeps
  have hroom := hholds.room
  refine ⟨⟨hmem, hroom, ?_⟩, ?_⟩
  · rw [← hholds.read_eq]
    apply Heap.read_congr
    intro i hi
    exact hbytes _ ⟨Nat.le_add_right _ _, Nat.add_lt_add_left (Nat.lt_trans hi hroom) _⟩
  · exact (hbytes _ ⟨Nat.le_add_right _ _, Nat.add_lt_add_left hroom _⟩).trans hholds.terminated

theorem Valid.keeps (hvalid : Valid h buffer data) (hkeeps : buffer.block ∈ h.blocks → h.Keeps h' buffer.block) :
    Valid h' buffer data :=
  hvalid.imp_right fun hholds => hholds.keeps (hkeeps hholds.block)

/-- A buffer is valid in every state. -/
theorem valid_of_reached (h : GrowableBuffer.Reached buffer h' data) : Valid h' buffer data := by
  induction h with
  | zero h => exact .inl ⟨rfl, rfl⟩
  | allocate malloc hrun => exact .inr ((allocate_yields malloc _).of_ok hrun).1
  | operate malloc operation hreached hallowed hrun ih =>
      obtain ⟨hdata, hfree⟩ := (operation_yields malloc ih operation hallowed).of_ok hrun
      by_cases hop : operation = .free
      · subst hop
        exact .inl ⟨(hfree rfl).1, rfl⟩
      · exact .inr (hdata hop).1
  | other hreached hkeeps ih => exact ih.keeps hkeeps

/-- **A buffer is the terminated concatenation of its writes.** From any state, every operation but `free` makes the
    buffer hold what has been written since the last `clear` or `free`, and writes nothing outside of its block; only
    an allocator that refuses the larger block the operation needs can end the program. -/
theorem growableBuffer_run (hreached : GrowableBuffer.Reached buffer h data) (malloc : Malloc) (operation : Operation)
    (hallowed : operation.Allowed h buffer) :
    Yields (Refused malloc h buffer.max (operation.total buffer)) (operation.run malloc buffer h)
        (Does operation h buffer data) ∧
      Yields (malloc h 4096 = none) (allocateGrowableBuffer malloc h) (Becomes h 0 []) :=
  ⟨operation_yields malloc (valid_of_reached hreached) operation hallowed, allocate_yields malloc h⟩

/-- One operation more, if it is allowed. -/
def Operation.next (malloc : Malloc) (s : (GrowableBuffer × Heap) × List UInt8) (operation : Operation) :
    Except Trap ((GrowableBuffer × Heap) × List UInt8) :=
  if operation.Allowed s.1.2 s.1.1 then
    (operation.run malloc s.1.1 s.1.2).map fun p => (p, operation.after s.1.2 s.2)
  else .error .wild

/-- What operations lead to. -/
theorem reached_of_operations {malloc : Malloc} {operations : List Operation}
    {s s' : (GrowableBuffer × Heap) × List UInt8} (hreached : s.1.1.Reached s.1.2 s.2)
    (hrun : operations.foldlM (Operation.next malloc) s = .ok s') : s'.1.1.Reached s'.1.2 s'.2 := by
  refine Loops.foldlM_ok_invariant (fun s => s.1.1.Reached s.1.2 s.2) (fun operation _ s₁ s₂ h₁ hnext => ?_)
    hreached hrun
  unfold Operation.next at hnext
  split at hnext
  · next hallowed =>
      obtain ⟨p, hp, rfl⟩ := Loops.map_eq_ok hnext
      exact h₁.operate malloc operation hallowed hp
  · cases hnext

/-- A buffer that has grown three times, was freed, and has started again. -/
def grownOperations : List Operation :=
  [.write (.literal [104, 105]) 2, .write (.literal [32, 97, 108, 108]) 4, .readInto 8 [33, 10], .clear,
    .write (.literal [111, 107]) 2, .free, .reserve 4, .write (.literal [104, 101, 108, 108, 111]) 5, .nullTerminate]

/-- A write that it has to move for. -/
def longWrite : Operation := .write (.literal [44, 32, 119, 111, 114, 108, 100]) 7

/-- The buffer is filled, moves to a larger block, and holds all that was written. -/
theorem growableBuffer_run_grown : ∃ (buffer : GrowableBuffer) (h : Heap) (p : GrowableBuffer × Heap),
    buffer.Reached h [104, 101, 108, 108, 111] ∧ longWrite.run .bump buffer h = .ok p ∧
      p.1.memory ≠ buffer.memory ∧ Holds p.2 p.1 [104, 101, 108, 108, 111, 44, 32, 119, 111, 114, 108, 100] ∧
      Yields (Refused .bump h buffer.max (longWrite.total buffer)) (longWrite.run .bump buffer h)
        (Does longWrite h buffer [104, 101, 108, 108, 111]) ∧
      Yields (Malloc.bump h 4096 = none) (allocateGrowableBuffer .bump h) (Becomes h 0 []) := by
  have hready : (match grownOperations.foldlM (Operation.next .bump) ((.zero, .empty), []) with
      | .ok s    => decide (s.2 = [104, 101, 108, 108, 111] ∧ longWrite.Allowed s.1.2 s.1.1) &&
          (match longWrite.run .bump s.1.1 s.1.2 with
            | .ok p    => decide (p.1.memory ≠ s.1.1.memory)
            | .error _ => false)
      | .error _ => false) = true := by decide +kernel
  split at hready
  · next s hrun =>
      obtain ⟨hstate, hmoved⟩ := Bool.and_eq_true_iff.mp hready
      obtain ⟨hdata, hallowed⟩ := of_decide_eq_true hstate
      have hreached := reached_of_operations (.zero .empty) hrun
      rw [hdata] at hreached
      obtain ⟨hyields, hallocates⟩ := growableBuffer_run hreached .bump longWrite hallowed
      split at hmoved
      · next p hwrite =>
          have hholds := ((hyields.of_ok hwrite).1 (by simp [longWrite])).1
          exact ⟨_, _, p, hreached, hwrite, of_decide_eq_true hmoved, hholds, hyields, hallocates⟩
      · cases hmoved
  · cases hready

end Runs

end Hand2.InMemory
