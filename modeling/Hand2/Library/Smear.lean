import Mathlib.Algebra.Ring.Nat
import Mathlib.Data.Nat.Size
import Mathlib.Order.Bounds.Defs

/-!
# `Library.Smear` — filling the bits under the highest one

Or-ing a number with itself shifted to the right by `1`, `2`, `4`, … sets every bit below its highest one. After the
steps so far a bit of the result says whether the number has a bit in a *window* that starts there (`Covers`), and one
step makes the window twice as wide (`Covers.smear`). Once the window is as wide as the number, the result is a block
of ones (`Covers.eq`), and its successor a power of two: the least one there can be (`isLeast_two_pow_size`).
-/

namespace Smear

/-- A bit of `y` is set if `x` has a bit in the window of `width` bits that starts there. -/
def Covers (width x y : Nat) : Prop := ∀ i, y.testBit i = true ↔ ∃ j < width, x.testBit (i + j) = true

/-- A number covers itself with a window of one bit. -/
theorem covers_self (x : Nat) : Covers 1 x x := by
  intro i
  constructor
  · intro h
    exact ⟨0, Nat.one_pos, h⟩
  · rintro ⟨j, hj, h⟩
    obtain rfl := Nat.lt_one_iff.mp hj
    exact h

/-- Or-ing with the shift by the width doubles the width: two windows side by side are one. -/
theorem Covers.smear {width x y : Nat} (h : Covers width x y) : Covers (width + width) x (y ||| y >>> width) := by
  intro i
  rw [Nat.testBit_or, Nat.testBit_shiftRight, Bool.or_eq_true, h i, h (width + i)]
  constructor
  · rintro (⟨j, hj, hbit⟩ | ⟨j, hj, hbit⟩)
    · exact ⟨j, by omega, hbit⟩
    · refine ⟨width + j, by omega, ?_⟩
      rwa [show i + (width + j) = width + i + j by omega]
  · rintro ⟨j, hj, hbit⟩
    by_cases hfirst : j < width
    · exact .inl ⟨j, hfirst, hbit⟩
    · refine .inr ⟨j - width, by omega, ?_⟩
      rwa [show width + i + (j - width) = i + j by omega]

/-- A window as wide as the number makes the result a block of ones. -/
theorem Covers.eq {width x y : Nat} (h : Covers width x y) (hx : x < 2 ^ width) : y = 2 ^ x.size - 1 := by
  apply Nat.eq_of_testBit_eq
  intro i
  rw [Nat.testBit_two_pow_sub_one, Bool.eq_iff_iff, h i, decide_eq_true_iff, Nat.lt_size]
  constructor
  · rintro ⟨j, -, hbit⟩
    calc 2 ^ i ≤ 2 ^ (i + j) := Nat.pow_le_pow_right (by omega) (by omega)
      _ ≤ x := Nat.ge_two_pow_of_testBit hbit
  · intro hle
    obtain ⟨m, hm, hbit⟩ := Nat.exists_ge_and_testBit_of_ge_two_pow hle
    have hlt : m < width := by
      rw [← Nat.pow_lt_pow_iff_right (show 1 < 2 by omega)]
      exact Nat.lt_of_le_of_lt (Nat.ge_two_pow_of_testBit hbit) hx
    refine ⟨m - i, by omega, ?_⟩
    rwa [Nat.add_sub_cancel' hm]

/-- Behind the highest bit of the number below comes the least power of two that is large enough. -/
theorem isLeast_two_pow_size {value : Nat} (h : 1 ≤ value) :
    IsLeast {p | p.isPowerOfTwo ∧ value ≤ p} (2 ^ (value - 1).size) := by
  refine ⟨⟨⟨_, rfl⟩, ?_⟩, ?_⟩
  · have hlt : value - 1 < 2 ^ (value - 1).size := Nat.lt_size_self _
    omega
  · rintro p ⟨⟨k, rfl⟩, hle⟩
    apply Nat.pow_le_pow_right (by omega)
    rw [Nat.size_le]
    omega

end Smear
