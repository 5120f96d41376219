import Hand2.Common
import Hand2.Library.Loops
import Hand2.PowerOfTwo
import Mathlib.Algebra.Ring.Int.Defs
import Mathlib.Algebra.Ring.Nat

/-!
# `StringArray` — arrays of strings (`hand_buffer.c`)

A `StringArray` is a buffer of NUL-terminated strings and an array of pointers into it. Both move when they grow. A
pointer is modelled by its distance from the start of the buffer, which is what the loop that fixes the pointers up
keeps. The numbers of pointers are `int`s: the array can double up to `2^30` pointers, and the next doubling asks for
more memory than there can be, which ends the program (`appendAll_allocate`).
-/

namespace Hand2

/-- `allocate_memory`: no block has `2^63` bytes or more, and `Fatal: out of memory` ends the process. -/
def allocateMemory (size : UInt64) : Except Fault Unit :=
  if size ≥ 9223372036854775808 then .error .exit else .ok ()

theorem allocateMemory_of_lt {size : UInt64} (h : size.toNat < 9223372036854775808) : allocateMemory size = .ok () := by
  rw [allocateMemory, if_neg]
  intro hge
  have hle : 9223372036854775808 ≤ size.toNat := UInt64.le_iff_toNat_le.mp hge
  omega

/-- An `int` that is a size. -/
theorem toNat_ofInt {size : Int} (h0 : 0 ≤ size) (h : size < 9223372036854775808) :
    (UInt64.ofInt size).toNat = size.toNat := by
  rw [UInt64.ofInt, UInt64.toNat_ofNat']
  omega

theorem allocateMemory_ok {size : Int} (h0 : 0 ≤ size) (h : size < 9223372036854775808) :
    allocateMemory (UInt64.ofInt size) = .ok () := by
  apply allocateMemory_of_lt
  rw [toNat_ofInt h0 h]
  omega

/-- `StringArray`: the used bytes of the buffer, where the strings start in it, and the room for pointers. Behind every
    pointer there is a terminator. -/
structure StringArray where
  buffer : List UInt8
  elem : List Nat
  max : Int
  terminated : ∀ offset ∈ elem, (0 : UInt8) ∈ buffer.drop offset

namespace StringArray

/-- `count`. -/
def count (array : StringArray) : Int := array.elem.length

/-- The string behind a pointer. -/
def stringAt (array : StringArray) (offset : Nat) : CString := CString.ofBytes (array.buffer.drop offset)

/-- The strings of the array. -/
def strings (array : StringArray) : List CString := array.elem.map array.stringAt

/-- A pointer points into the buffer. -/
theorem le_of_mem_elem {array : StringArray} {offset : Nat} (h : offset ∈ array.elem) :
    offset ≤ array.buffer.length := by
  by_contra hlong
  have hdrop := array.terminated offset h
  rw [List.drop_eq_nil_of_le (by omega)] at hdrop
  exact List.not_mem_nil hdrop

/-- What is written behind the buffer does not move what the pointers point at. -/
theorem drop_append_of_mem_elem {array : StringArray} {offset : Nat} (h : offset ∈ array.elem) (data : List UInt8) :
    (array.buffer ++ data).drop offset = array.buffer.drop offset ++ data :=
  List.drop_append_of_le_length (le_of_mem_elem h)

end StringArray

/-- `reserve_string_array`: the room for pointers it leaves. -/
def reserveStringArray (array : StringArray) (count : Int) : Except Fault Int :=
  let total := cInt (array.count + count)
  if total > array.max then
    let allocated := cInt (nextPowOfTwo (UInt64.ofInt total)).toNat
    -- the size is a product of `size_t`s
    (allocateMemory (UInt64.ofInt (allocated * 8))).map fun _ => allocated
  else .ok array.max

/-- `allocate_string_array`. -/
def allocateStringArray : StringArray where
  buffer := []
  elem := []
  max := 128
  terminated := by simp

/-- `append_string_array`. -/
def appendStringArray (array : StringArray) (string : CString) : Except Fault StringArray :=
  (reserveStringArray array 1).map fun max =>
    { buffer := array.buffer ++ (string.bytes ++ [0])
      elem := array.elem ++ [array.buffer.length]
      max
      terminated := by
        intro offset hoffset
        rcases List.mem_append.mp hoffset with hold | hnew
        · rw [StringArray.drop_append_of_mem_elem hold]
          exact List.mem_append_left _ (array.terminated offset hold)
        · obtain rfl := List.mem_singleton.mp hnew
          simp }

/-- Append a list of strings. -/
def appendAll (array : StringArray) (strings : List CString) : Except Fault StringArray :=
  strings.foldlM appendStringArray array

/-! ## What appending does -/

/-- The strings that were there stay, the new one comes last. -/
theorem strings_of_append {array array' : StringArray} {string : CString}
    (h : appendStringArray array string = .ok array') : array'.strings = array.strings ++ [string] := by
  obtain ⟨max, -, rfl⟩ := Loops.map_eq_ok h
  unfold StringArray.strings StringArray.stringAt
  rw [List.map_append, List.map_singleton]
  refine congrArg₂ (· ++ ·) ?_ (congrArg (fun s => [s]) ?_)
  · apply List.map_congr_left
    intro offset hoffset
    rw [StringArray.drop_append_of_mem_elem hoffset,
      CString.ofBytes_append_of_mem (array.terminated offset hoffset)]
  · rw [List.drop_left, CString.ofBytes_append_zero, CString.ofBytes_bytes]

/-- A string is appended where there is room for a pointer. -/
theorem append_of_reserve {array : StringArray} {max : Int} (h : reserveStringArray array 1 = .ok max)
    (string : CString) :
    ∃ array', appendStringArray array string = .ok array' ∧ array'.buffer = array.buffer ++ (string.bytes ++ [0]) ∧
      array'.elem = array.elem ++ [array.buffer.length] ∧ array'.max = max := by
  unfold appendStringArray
  rw [h]
  exact ⟨_, rfl, rfl, rfl, rfl⟩

/-- The largest number of pointers. -/
def maxStrings : Nat := 2 ^ 30

/-- The room for pointers is one of the powers of two up to `maxStrings`, and all pointers have room. -/
def StringArray.HasRoom (array : StringArray) : Prop :=
  ∃ k : Fin 24, array.max = 2 ^ (k.val + 7) ∧ array.elem.length ≤ 2 ^ (k.val + 7)

theorem hasRoom_allocateStringArray : allocateStringArray.HasRoom := ⟨0, by decide, Nat.zero_le _⟩

/-- The next power of two of a number of pointers. -/
theorem nextPowOfTwo_ofInt {n : Nat} (h1 : 1 ≤ n) (h : n < 9223372036854775808) :
    (nextPowOfTwo (UInt64.ofInt n)).toNat = 2 ^ (n - 1).size := by
  have hnat : (UInt64.ofInt n).toNat = n := by
    rw [toNat_ofInt (by omega) (by omega), Int.toNat_natCast]
  rw [toNat_nextPowOfTwo_of_le (by omega) (by omega), hnat]

/-- A full array doubles, until it has `maxStrings` pointers. -/
theorem reserve_full (k : Fin 24) :
    (allocateMemory (UInt64.ofInt (cInt (nextPowOfTwo (UInt64.ofInt (2 ^ (k.val + 7) + 1))).toNat * 8))).map
        (fun _ => cInt (nextPowOfTwo (UInt64.ofInt (2 ^ (k.val + 7) + 1))).toNat) =
      if k.val < 23 then .ok (2 ^ (k.val + 8)) else .error .exit := by
  have hfull : (2 : Nat) ^ (k.val + 7) ≤ 2 ^ 30 := Nat.pow_le_pow_right (by omega) (by omega)
  have htotal : (2 ^ (k.val + 7) + 1 : Int) = (2 ^ (k.val + 7) + 1 : Nat) := by simp
  have hdouble : (2 ^ (k.val + 8) : Int) = (2 ^ (k.val + 8) : Nat) := by simp
  rw [htotal, nextPowOfTwo_ofInt (Nat.le_add_left 1 _) (by omega), Nat.add_sub_cancel, Nat.size_pow]
  by_cases hk : k.val < 23
  · have hle : (2 : Nat) ^ (k.val + 8) ≤ 2 ^ 30 := Nat.pow_le_pow_right (by omega) (by omega)
    rw [if_pos hk, hdouble]
    generalize (2 : Nat) ^ (k.val + 8) = n at hle
    have hint : cInt n = n := cInt_eq (by omega) (by unfold intMax; omega)
    rw [hint, allocateMemory_ok (by omega) (by omega)]
    rfl
  -- the number of pointers turns negative
  · obtain rfl : k = 23 := by omega
    rfl

/-- There is room for one more string, or there are `maxStrings` already. -/
theorem reserve_of_hasRoom {array : StringArray} (h : array.HasRoom) :
    (array.elem.length < maxStrings ∧ ∃ max, reserveStringArray array 1 = .ok max ∧
      ∃ k : Fin 24, max = 2 ^ (k.val + 7) ∧ array.elem.length + 1 ≤ 2 ^ (k.val + 7)) ∨
    (array.elem.length = maxStrings ∧ reserveStringArray array 1 = .error .exit) := by
  obtain ⟨k, hmax, hcount⟩ := h
  have hpow : (2 : Nat) ^ (k.val + 7) ≤ maxStrings := Nat.pow_le_pow_right (by omega) (by omega)
  have hcast : ((2 ^ (k.val + 7) : Nat) : Int) = 2 ^ (k.val + 7) := by simp
  have htotal : cInt (array.count + 1) = array.elem.length + 1 := by
    apply cInt_eq
    · simp only [StringArray.count]
      omega
    · simp only [StringArray.count, intMax, maxStrings] at *
      omega
  unfold reserveStringArray
  rw [htotal, hmax]
  rcases Nat.lt_or_eq_of_le hcount with hlt | hfull
  · left
    rw [if_neg (by omega)]
    exact ⟨by omega, _, rfl, k, rfl, hlt⟩
  · have hgrow := reserve_full k
    rw [if_pos (by omega), hfull, hcast]
    by_cases hk : k.val < 23
    · rw [if_pos hk] at hgrow
      have hdouble : (2 : Nat) ^ (k.val + 1 + 7) = 2 ^ (k.val + 7) + 2 ^ (k.val + 7) := by
        rw [Nat.add_right_comm]
        exact Nat.two_pow_succ _
      have hle : (2 : Nat) ^ (k.val + 1 + 7) ≤ maxStrings := Nat.pow_le_pow_right (by omega) (by omega)
      have hone : 1 ≤ (2 : Nat) ^ (k.val + 7) := Nat.one_le_two_pow
      refine .inl ⟨by omega, _, hgrow, ⟨k.val + 1, by omega⟩, ?_, ?_⟩
      · show (2 : Int) ^ (k.val + 8) = 2 ^ (k.val + 1 + 7)
        rw [Nat.add_right_comm]
      · show 2 ^ (k.val + 7) + 1 ≤ 2 ^ (k.val + 1 + 7)
        rw [hdouble]
        exact Nat.add_le_add_left hone _
    · rw [if_neg hk] at hgrow
      have hlast : k.val = 23 := by omega
      exact .inr ⟨by rw [hlast]; rfl, hgrow⟩

/-- A string is appended while there are fewer than `maxStrings`; then the program ends. -/
theorem append_of_hasRoom {array : StringArray} (h : array.HasRoom) (string : CString) :
    (array.elem.length < maxStrings ∧ ∃ array', appendStringArray array string = .ok array' ∧ array'.HasRoom ∧
      array'.elem.length = array.elem.length + 1) ∨
    (array.elem.length = maxStrings ∧ appendStringArray array string = .error .exit) := by
  unfold appendStringArray
  rcases reserve_of_hasRoom h with ⟨hlt, max, hreserve, k, hmax, hroom⟩ | ⟨hfull, hreserve⟩
  · have hlen : (array.elem ++ [array.buffer.length]).length = array.elem.length + 1 := List.length_append
    rw [hreserve]
    refine .inl ⟨hlt, _, rfl, ⟨k, hmax, ?_⟩, hlen⟩
    exact hlen.symm ▸ hroom
  · rw [hreserve]
    exact .inr ⟨hfull, rfl⟩

/-- What room there is for pointers, as a number of them. -/
theorem room_of_reserve {array : StringArray} (hroom : array.HasRoom) {max : Int}
    (hreserve : reserveStringArray array 1 = .ok max) :
    ∃ n : Nat, max = n ∧ array.elem.length + 1 ≤ n ∧ n ≤ maxStrings := by
  rcases reserve_of_hasRoom hroom with ⟨-, max', hmax', k, rfl, hle⟩ | ⟨-, hexit⟩
  · rw [hreserve] at hmax'
    refine ⟨2 ^ (k.val + 7), ?_, hle, Nat.pow_le_pow_right (by omega) (by omega)⟩
    rw [Except.ok.inj hmax']
    simp
  · rw [hreserve] at hexit
    cases hexit

/-- An array that takes a string has room for all its pointers. -/
theorem hasRoom_of_append {array array' : StringArray} {s : CString} (hroom : array.HasRoom)
    (happend : appendStringArray array s = .ok array') : array'.HasRoom := by
  rcases append_of_hasRoom hroom s with ⟨-, _, happend', hroom', -⟩ | ⟨-, hexit⟩
  · rw [happend] at happend'
    exact Except.ok.inj happend' ▸ hroom'
  · rw [happend] at hexit
    cases hexit

/-- **Appending strings.** With at most `maxStrings` the array holds them all, in order; with more the program ends. -/
theorem appendAll_of_hasRoom {array : StringArray} (h : array.HasRoom) (strings : List CString) :
    (array.elem.length + strings.length ≤ maxStrings ∧
      ∃ array', appendAll array strings = .ok array' ∧ array'.strings = array.strings ++ strings) ∨
    (maxStrings < array.elem.length + strings.length ∧ appendAll array strings = .error .exit) := by
  unfold appendAll
  induction strings generalizing array with
  | nil =>
      have hle : array.elem.length ≤ maxStrings := by
        rcases reserve_of_hasRoom h with ⟨hlt, -⟩ | ⟨hfull, -⟩
        · exact Nat.le_of_lt hlt
        · exact Nat.le_of_eq hfull
      exact .inl ⟨hle, array, rfl, (List.append_nil _).symm⟩
  | cons string strings ih =>
      rw [List.foldlM_cons, List.length_cons]
      rcases append_of_hasRoom h string with ⟨-, next, happend, hnext, hlen⟩ | ⟨hfull, happend⟩
      · rw [happend]
        show (_ ∧ ∃ array', strings.foldlM appendStringArray next = .ok array' ∧ _) ∨
          (_ ∧ strings.foldlM appendStringArray next = .error .exit)
        rcases ih hnext with ⟨hle, array', hrun, hstrings⟩ | ⟨hlt, hrun⟩
        · refine .inl ⟨by omega, array', hrun, ?_⟩
          rw [hstrings, strings_of_append happend, List.append_assoc, List.singleton_append]
        · exact .inr ⟨by omega, hrun⟩
      · rw [happend]
        exact .inr ⟨by omega, rfl⟩

/-- A new array. -/
theorem appendAll_allocate (strings : List CString) :
    (strings.length ≤ maxStrings ∧
      ∃ array, appendAll allocateStringArray strings = .ok array ∧ array.strings = strings) ∨
    (maxStrings < strings.length ∧ appendAll allocateStringArray strings = .error .exit) := by
  have h := appendAll_of_hasRoom hasRoom_allocateStringArray strings
  rwa [show allocateStringArray.elem.length = 0 from rfl, Nat.zero_add] at h

end Hand2
