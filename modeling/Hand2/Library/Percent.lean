import Mathlib.Data.List.Basic

/-!
# `Library.Percent` — percent-encoding

Bytes that may stand for themselves are kept, every other byte is written as a percent sign and two hexadecimal
digits. If the percent sign is not kept, every encoded text has one reading, which a strict decoder finds
(`decode_encode`), so different texts are encoded differently (`encode_injective`).
-/

namespace Percent

/-- The byte `%`. -/
def sign : UInt8 := 37

/-- The hexadecimal digits of a URI, in both cases. -/
def hexValue (c : UInt8) : Option UInt8 :=
  if 48 ≤ c ∧ c ≤ 57 then some (c - 48)          -- `0` to `9`
  else if 97 ≤ c ∧ c ≤ 102 then some (c - 87)    -- `a` to `f`
  else if 65 ≤ c ∧ c ≤ 70 then some (c - 55)     -- `A` to `F`
  else none

/-- `c` is a hexadecimal digit. -/
def IsHexDigit (c : UInt8) : Prop := (hexValue c).isSome = true

instance : DecidablePred IsHexDigit := fun _ => inferInstanceAs (Decidable (_ = true))

/-- The lower-case digit of a value below 16. -/
def hexDigit (n : UInt8) : UInt8 := if n < 10 then n + 48 else n + 87

/-- What a byte is written as. -/
def encodeByte (Kept : UInt8 → Prop) [DecidablePred Kept] (c : UInt8) : List UInt8 :=
  if Kept c then [c] else [sign, hexDigit (c / 16), hexDigit (c % 16)]

/-- What a text is written as. -/
def encode (Kept : UInt8 → Prop) [DecidablePred Kept] (cs : List UInt8) : List UInt8 := cs.flatMap (encodeByte Kept)

/-- A strict decoder: a percent sign needs its two digits. -/
def decode : List UInt8 → Option (List UInt8)
  | []      => some []
  | c :: cs =>
      if c ≠ sign then (decode cs).map (c :: ·)
      else
        match cs with
        | high :: low :: cs => do
            let high ← hexValue high
            let low ← hexValue low
            let cs ← decode cs
            some ((high * 16 + low) :: cs)
        | _                 => none

/-- The texts made of kept bytes and of percent signs with their two digits. -/
inductive Encoded (Kept : UInt8 → Prop) : List UInt8 → Prop where
  | nil : Encoded Kept []
  | kept {c : UInt8} {cs : List UInt8} (hc : Kept c) (h : Encoded Kept cs) : Encoded Kept (c :: cs)
  | triple {high low : UInt8} {cs : List UInt8} (hhigh : IsHexDigit high) (hlow : IsHexDigit low)
      (h : Encoded Kept cs) : Encoded Kept (sign :: high :: low :: cs)

/-- The digits of a byte, byte by byte. -/
theorem hexValue_digits : ∀ n < 256, hexValue (hexDigit (n.toUInt8 / 16)) = some (n.toUInt8 / 16) ∧
    hexValue (hexDigit (n.toUInt8 % 16)) = some (n.toUInt8 % 16) ∧
    n.toUInt8 / 16 * 16 + n.toUInt8 % 16 = n.toUInt8 := by
  decide +kernel

/-- The two digits of a byte give the byte. -/
theorem hexValue_hexDigit (c : UInt8) : hexValue (hexDigit (c / 16)) = some (c / 16) ∧
    hexValue (hexDigit (c % 16)) = some (c % 16) ∧ c / 16 * 16 + c % 16 = c := by
  have h := hexValue_digits c.toNat c.toNat_lt
  rwa [show c.toNat.toUInt8 = c from UInt8.ofNat_toNat] at h

/-- A byte that is no percent sign stands for itself. -/
theorem decode_cons {c : UInt8} (hc : c ≠ sign) (cs : List UInt8) : decode (c :: cs) = (decode cs).map (c :: ·) := by
  match cs with
  | []          => simp [decode, hc]
  | [_]         => simp [decode, hc]
  | _ :: _ :: _ => rw [decode, if_pos hc]

section Encode

variable {Kept : UInt8 → Prop} [DecidablePred Kept]

/-- What is written keeps to the grammar. -/
theorem encoded_encode (cs : List UInt8) : Encoded Kept (encode Kept cs) := by
  induction cs with
  | nil => exact .nil
  | cons c cs ih =>
      show Encoded Kept (encodeByte Kept c ++ encode Kept cs)
      unfold encodeByte
      split
      · next hc => exact .kept hc ih
      · obtain ⟨hhigh, hlow, -⟩ := hexValue_hexDigit c
        exact .triple (Option.isSome_of_eq_some hhigh) (Option.isSome_of_eq_some hlow) ih

/-- **The way back.** -/
theorem decode_encode (hsign : ¬ Kept sign) (cs : List UInt8) : decode (encode Kept cs) = some cs := by
  induction cs with
  | nil => rfl
  | cons c cs ih =>
      show decode (encodeByte Kept c ++ encode Kept cs) = _
      unfold encodeByte
      split
      · next hc =>
          have hne : c ≠ sign := by
            rintro rfl
            exact hsign hc
          rw [List.singleton_append, decode_cons hne, ih]
          rfl
      · obtain ⟨hhigh, hlow, hsum⟩ := hexValue_hexDigit c
        show decode (sign :: hexDigit (c / 16) :: hexDigit (c % 16) :: encode Kept cs) = _
        rw [decode, if_neg (fun h => h rfl)]
        simp [hhigh, hlow, ih, hsum]

/-- Different texts are encoded differently. -/
theorem encode_injective (hsign : ¬ Kept sign) {cs cs' : List UInt8} (h : encode Kept cs = encode Kept cs') :
    cs = cs' := by
  have hdecode := congrArg decode h
  rwa [decode_encode hsign, decode_encode hsign, Option.some_inj] at hdecode

end Encode

end Percent
