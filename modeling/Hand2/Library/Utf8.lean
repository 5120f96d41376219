import Mathlib.Data.List.Flatten

/-!
# `Library.Utf8` — texts and their encodings

A text is a list of characters (Unicode scalar values). `utf8` is the byte string that carries it and
`utf16` its code units, the alphabet in which formats with sixteen-bit escapes say what a string means.
-/

namespace Utf8

/-- The bytes of a text. -/
def utf8 (text : List Char) : List UInt8 := text.flatMap String.utf8EncodeChar

@[simp] theorem utf8_nil : utf8 [] = [] := rfl

@[simp] theorem utf8_cons (c : Char) (text : List Char) : utf8 (c :: text) = String.utf8EncodeChar c ++ utf8 text := rfl

@[simp] theorem utf8_append (a b : List Char) : utf8 (a ++ b) = utf8 a ++ utf8 b := by
  simp [utf8]

/-- A byte string carries one text. -/
theorem utf8_injective {a b : List Char} (h : utf8 a = utf8 b) : a = b := by
  have hbytes : a.utf8Encode = b.utf8Encode := congrArg List.toByteArray h
  have hdecoded := congrArg ByteArray.utf8Decode? hbytes
  rw [List.utf8Decode?_utf8Encode, List.utf8Decode?_utf8Encode] at hdecoded
  have hlist := congrArg Array.toList (Option.some.inj hdecoded)
  simpa using hlist

/-! ## One character -/

/-- An ASCII character is its own byte. -/
theorem utf8EncodeChar_ascii {c : Char} (h : c.toNat < 128) : String.utf8EncodeChar c = [c.toNat.toUInt8] := by
  apply String.utf8EncodeChar_eq_singleton
  have hval : c.val ≤ 0x7f := by
    rw [UInt32.le_iff_toNat_le]
    exact Nat.le_of_lt_succ h
  simp [Char.utf8Size, hval]

/-- Every byte of another character is at least 128. -/
theorem le_of_mem_utf8EncodeChar {c : Char} (h : 128 ≤ c.toNat) {b : UInt8} (hb : b ∈ String.utf8EncodeChar c) :
    128 ≤ b.toNat := by
  have hlarge : ¬ c.val.toNat ≤ 127 := Nat.not_le.mpr h
  unfold String.utf8EncodeChar at hb
  simp only [if_neg hlarge] at hb
  split at hb
  · simp only [List.mem_cons, List.not_mem_nil, or_false] at hb
    rcases hb with rfl | rfl <;> simp <;> omega
  · split at hb
    · simp only [List.mem_cons, List.not_mem_nil, or_false] at hb
      rcases hb with rfl | rfl | rfl <;> simp <;> omega
    · simp only [List.mem_cons, List.not_mem_nil, or_false] at hb
      rcases hb with rfl | rfl | rfl | rfl <;> simp <;> omega

/-- A text without U+0000 has no NUL byte. -/
theorem zero_notMem_utf8 {text : List Char} (h : Char.ofNat 0 ∉ text) : (0 : UInt8) ∉ utf8 text := by
  intro h0
  obtain ⟨c, hc, hb⟩ := List.mem_flatMap.mp h0
  rcases Nat.lt_or_ge c.toNat 128 with hsmall | hlarge
  · rw [utf8EncodeChar_ascii hsmall] at hb
    have hbyte : (0 : UInt8).toNat = c.toNat.toUInt8.toNat := congrArg UInt8.toNat (List.mem_singleton.mp hb)
    have hzero : c.toNat = 0 := by
      simp at hbyte
      omega
    have hnul : c = Char.ofNat 0 := by
      rw [← hzero]
      exact (Char.ofNat_toNat c).symm
    exact h (hnul ▸ hc)
  · have := le_of_mem_utf8EncodeChar hlarge hb
    exact absurd this (by decide)

/-! ## Code units -/

/-- The code units of a character: itself, or a surrogate pair. -/
def utf16Char (c : Char) : List Nat :=
  if c.toNat < 0x10000 then [c.toNat]
  else [0xD800 + (c.toNat - 0x10000) / 0x400, 0xDC00 + (c.toNat - 0x10000) % 0x400]

/-- A character below the surrogate pairs is its code unit. -/
theorem utf16Char_of_lt {c : Char} (h : c.toNat < 0x10000) : utf16Char c = [c.toNat] := by
  unfold utf16Char
  exact if_pos h

/-- The code units of a text. -/
def utf16 (text : List Char) : List Nat := text.flatMap utf16Char

@[simp] theorem utf16_nil : utf16 [] = [] := rfl

@[simp] theorem utf16_cons (c : Char) (text : List Char) : utf16 (c :: text) = utf16Char c ++ utf16 text := rfl

@[simp] theorem utf16_append (a b : List Char) : utf16 (a ++ b) = utf16 a ++ utf16 b := by
  simp [utf16]

theorem length_utf16Char_pos (c : Char) : 0 < (utf16Char c).length := by
  unfold utf16Char
  split <;> simp

/-- A text has at least as many code units as characters. -/
theorem length_le_utf16 (text : List Char) : text.length ≤ (utf16 text).length := by
  induction text with
  | nil => simp
  | cons c text ih =>
      have := length_utf16Char_pos c
      simp only [utf16_cons, List.length_cons, List.length_append]
      omega

end Utf8
