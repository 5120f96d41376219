import Hand2.Library.Utf8

/-!
# `Library.Utf16` — reading code units

The text that a sequence of sixteen-bit code units spells. A surrogate counts only with its other half, so not every
sequence spells one.
-/

namespace Utf8

/-- The first half of a pair, and the second. -/
def HighSurrogate (u : Nat) : Prop := 0xD800 ≤ u ∧ u ≤ 0xDBFF
def LowSurrogate (u : Nat) : Prop := 0xDC00 ≤ u ∧ u ≤ 0xDFFF

instance (u : Nat) : Decidable (HighSurrogate u) := inferInstanceAs (Decidable (_ ∧ _))
instance (u : Nat) : Decidable (LowSurrogate u) := inferInstanceAs (Decidable (_ ∧ _))

/-- The code point of a pair. -/
def pairPoint (high low : Nat) : Nat := 0x10000 + (high - 0xD800) * 0x400 + (low - 0xDC00)

/-- The text of a sequence of code units. -/
def decodeUtf16 : List Nat → Option (List Char)
  | []      => some []
  | u :: us =>
      if HighSurrogate u then
        match us with
        | []      => none
        | v :: us => if LowSurrogate v then (decodeUtf16 us).map (Char.ofNat (pairPoint u v) :: ·) else none
      else if LowSurrogate u then none
      else (decodeUtf16 us).map (Char.ofNat u :: ·)

/-- A character is no surrogate. -/
theorem not_surrogate (c : Char) : ¬ HighSurrogate c.toNat ∧ ¬ LowSurrogate c.toNat := by
  rcases c.valid with hlow | ⟨hhigh, -⟩
  · have h : c.toNat < 0xD800 := hlow
    exact ⟨fun h' => by unfold HighSurrogate at h'; omega, fun h' => by unfold LowSurrogate at h'; omega⟩
  · have h : 0xDFFF < c.toNat := hhigh
    exact ⟨fun h' => by unfold HighSurrogate at h'; omega, fun h' => by unfold LowSurrogate at h'; omega⟩

theorem toNat_le (c : Char) : c.toNat ≤ 0x10FFFF := by
  rcases c.valid with hlow | ⟨-, hhigh⟩
  · have h : c.toNat < 0xD800 := hlow
    omega
  · have h : c.toNat < 0x110000 := hhigh
    omega

/-- What `Char.ofNat` makes of a code point is that code point. -/
theorem toNat_ofNat {n : Nat} (h : n.isValidChar) : (Char.ofNat n).toNat = n := by
  unfold Char.ofNat
  rw [dif_pos h]
  rfl

theorem decode_pair {u v : Nat} (hu : HighSurrogate u) (hv : LowSurrogate v) (us : List Nat) :
    decodeUtf16 (u :: v :: us) = (decodeUtf16 us).map (Char.ofNat (pairPoint u v) :: ·) := by
  rw [decodeUtf16.eq_def]
  dsimp only
  rw [if_pos hu, if_pos hv]

theorem decode_single {u : Nat} (hhigh : ¬ HighSurrogate u) (hlow : ¬ LowSurrogate u) (us : List Nat) :
    decodeUtf16 (u :: us) = (decodeUtf16 us).map (Char.ofNat u :: ·) := by
  rw [decodeUtf16.eq_def]
  dsimp only
  rw [if_neg hhigh, if_neg hlow]

/-- The units of a character stand for it, whatever is behind them. -/
theorem decode_utf16Char (c : Char) (us : List Nat) :
    decodeUtf16 (utf16Char c ++ us) = (decodeUtf16 us).map (c :: ·) := by
  have hle := toNat_le c
  obtain ⟨hhigh, hlow⟩ := not_surrogate c
  by_cases h : c.toNat < 0x10000
  · rw [utf16Char_of_lt h, List.singleton_append, decode_single hhigh hlow, Char.ofNat_toNat]
  · have hpair : utf16Char c
        = [0xD800 + (c.toNat - 0x10000) / 0x400, 0xDC00 + (c.toNat - 0x10000) % 0x400] := if_neg h
    have hfirst : HighSurrogate (0xD800 + (c.toNat - 0x10000) / 0x400) := ⟨by omega, by omega⟩
    have hsecond : LowSurrogate (0xDC00 + (c.toNat - 0x10000) % 0x400) := ⟨by omega, by omega⟩
    have hpoint : pairPoint (0xD800 + (c.toNat - 0x10000) / 0x400) (0xDC00 + (c.toNat - 0x10000) % 0x400)
        = c.toNat := by
      unfold pairPoint
      omega
    rw [hpair]
    show decodeUtf16 (_ :: _ :: us) = _
    rw [decode_pair hfirst hsecond, hpoint, Char.ofNat_toNat]

end Utf8
