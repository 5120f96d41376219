import Hand2.Library.Smear

/-!
# `PowerOfTwo` — `next_pow_of_two` (`hand_common.h`)

The sizes of the blocks that buffers and string arrays ask for. The six steps smear the highest bit of `value - 1` over
the word (`toNat_nextPowOfTwo`), so that the successor is the least power of two that is not below `value`
(`isLeast_nextPowOfTwo`). The word ends behind `2^63`: beyond it, the result is `0` (`nextPowOfTwo_eq_zero_iff`).
-/

namespace Hand2

/-- `next_pow_of_two`. -/
def nextPowOfTwo (value : UInt64) : UInt64 :=
  let value := value - 1
  let value := value ||| (value >>> 1)
  let value := value ||| (value >>> 2)
  let value := value ||| (value >>> 4)
  let value := value ||| (value >>> 8)
  let value := value ||| (value >>> 16)
  let value := value ||| (value >>> 32)
  value + 1

/-- Or-ing a word with itself shifted doubles the window that it covers. -/
theorem covers_or_shiftRight {width x : Nat} {value n : UInt64} (h : Smear.Covers width x value.toNat)
    (hn : n.toNat % 64 = width) : Smear.Covers (width + width) x (value ||| value >>> n).toNat := by
  rw [UInt64.toNat_or, UInt64.toNat_shiftRight, hn]
  exact h.smear

/-- The word the six steps leave is a block of ones; its successor may wrap. -/
theorem toNat_nextPowOfTwo (value : UInt64) :
    (nextPowOfTwo value).toNat = 2 ^ (value - 1).toNat.size % 2 ^ 64 := by
  unfold nextPowOfTwo
  dsimp only
  generalize value - 1 = word
  have h2 := covers_or_shiftRight (n := 1) (Smear.covers_self word.toNat) rfl
  have h4 := covers_or_shiftRight (n := 2) h2 rfl
  have h8 := covers_or_shiftRight (n := 4) h4 rfl
  have h16 := covers_or_shiftRight (n := 8) h8 rfl
  have h32 := covers_or_shiftRight (n := 16) h16 rfl
  have h64 := covers_or_shiftRight (n := 32) h32 rfl
  have hpos : 1 ≤ 2 ^ word.toNat.size := Nat.one_le_two_pow
  rw [UInt64.toNat_add, h64.eq word.toNat_lt]
  show (2 ^ word.toNat.size - 1 + 1) % 2 ^ 64 = _
  rw [Nat.sub_add_cancel hpos]

/-- Subtracting one from a word that is not zero is subtraction of numbers. -/
theorem toNat_pred {value : UInt64} (h : 1 ≤ value.toNat) : (value - 1).toNat = value.toNat - 1 :=
  UInt64.toNat_sub_of_le _ _ (UInt64.le_iff_toNat_le.mpr h)

/-- From `1` to `2^63` the result is a power of two: the successor does not wrap. -/
theorem toNat_nextPowOfTwo_of_le {value : UInt64} (h1 : 1 ≤ value.toNat) (h : value.toNat ≤ 2 ^ 63) :
    (nextPowOfTwo value).toNat = 2 ^ (value.toNat - 1).size := by
  have hsize : (value.toNat - 1).size ≤ 63 := by
    rw [Nat.size_le]
    omega
  rw [toNat_nextPowOfTwo, toNat_pred h1]
  exact Nat.mod_eq_of_lt (Nat.pow_lt_pow_right (by omega) (by omega))

theorem le_nextPowOfTwo {value : UInt64} (h1 : 1 ≤ value.toNat) (h : value.toNat ≤ 2 ^ 63) :
    value.toNat ≤ (nextPowOfTwo value).toNat := by
  rw [toNat_nextPowOfTwo_of_le h1 h]
  exact (Smear.isLeast_two_pow_size h1).1.2

theorem le_nextPowOfTwo_ofNat {n : Nat} (h1 : 1 ≤ n) (h : n ≤ 2 ^ 63) :
    n ≤ (nextPowOfTwo (UInt64.ofNat n)).toNat := by
  have hnat : (UInt64.ofNat n).toNat = n := UInt64.toNat_ofNat_of_lt (show n < 2 ^ 64 by omega)
  have hle : (UInt64.ofNat n).toNat ≤ (nextPowOfTwo (UInt64.ofNat n)).toNat :=
    le_nextPowOfTwo (by rwa [hnat]) (by rwa [hnat])
  rwa [hnat] at hle

/-- **The least power of two that is large enough**, for a value from `1` to `2^63`. It is not `0`, and a power of two
    stays as it is. -/
theorem isLeast_nextPowOfTwo {value : UInt64} (h1 : 1 ≤ value) (h : value ≤ 9223372036854775808) :
    IsLeast {p | p.isPowerOfTwo ∧ value.toNat ≤ p} (nextPowOfTwo value).toNat ∧
      nextPowOfTwo value ≠ 0 ∧
      (value.toNat.isPowerOfTwo → nextPowOfTwo value = value) := by
  have hone : 1 ≤ value.toNat := UInt64.le_iff_toNat_le.mp h1
  have hleast : IsLeast {p | p.isPowerOfTwo ∧ value.toNat ≤ p} (nextPowOfTwo value).toNat := by
    rw [toNat_nextPowOfTwo_of_le hone (UInt64.le_iff_toNat_le.mp h)]
    exact Smear.isLeast_two_pow_size hone
  refine ⟨hleast, ?_, ?_⟩
  · intro hzero
    have hle := le_nextPowOfTwo hone (UInt64.le_iff_toNat_le.mp h)
    rw [hzero] at hle
    exact absurd (Nat.le_trans hone hle) (by decide)
  · intro hpow
    apply UInt64.toNat_inj.mp
    exact Nat.le_antisymm (hleast.2 ⟨hpow, Nat.le_refl _⟩) hleast.1.2

/-- The largest value that is no power of two. -/
theorem isLeast_nextPowOfTwo_largest :
    IsLeast {p | p.isPowerOfTwo ∧ (9223372036854775807 : UInt64).toNat ≤ p}
        (nextPowOfTwo 9223372036854775807).toNat ∧
      nextPowOfTwo 9223372036854775807 ≠ 0 ∧
      ((9223372036854775807 : UInt64).toNat.isPowerOfTwo →
        nextPowOfTwo 9223372036854775807 = 9223372036854775807) :=
  isLeast_nextPowOfTwo (by decide) (by decide)

/-- The successor wraps to `0` beyond `2^63`, and nowhere else but at `0`. -/
theorem nextPowOfTwo_eq_zero_iff (value : UInt64) :
    nextPowOfTwo value = 0 ↔ value = 0 ∨ 9223372036854775808 < value := by
  constructor
  · intro hzero
    by_contra hrange
    obtain ⟨hne, hle⟩ := not_or.mp hrange
    have hpos : 1 ≤ value.toNat := Nat.pos_of_ne_zero fun h => hne (UInt64.toNat_inj.mp h)
    have hpow := toNat_nextPowOfTwo_of_le hpos (UInt64.le_iff_toNat_le.mp (UInt64.not_lt.mp hle))
    rw [hzero] at hpow
    exact absurd hpow.symm (Nat.ne_of_gt (Nat.two_pow_pos _))
  · intro hrange
    have hlow : 2 ^ 63 ≤ (value - 1).toNat := by
      rcases hrange with rfl | hlt
      · decide
      · have hnat : 2 ^ 63 < value.toNat := UInt64.lt_iff_toNat_lt.mp hlt
        rw [toNat_pred (by omega)]
        omega
    have hsize : (value - 1).toNat.size = 64 :=
      Nat.le_antisymm (Nat.size_le.mpr (value - 1).toNat_lt) (Nat.lt_size.mpr hlow)
    apply UInt64.toNat_inj.mp
    rw [toNat_nextPowOfTwo, hsize, Nat.mod_self]
    rfl

end Hand2
