import Hand2.Common
import Hand2.Library.Percent

/-!
# `Spreadsheet.Name` — the name of a sheet in a url

`retrieve_sheet` writes the name of a sheet into its url byte by byte: the unreserved characters of a URI stay, every
other byte becomes a percent sign and the two digits of a table. So every name, also one that is no ASCII or holds a
percent sign of its own, can be read back from the url.
-/

namespace Hand2

/-- `hex_char`. -/
def hexChar : List UInt8 := [48, 49, 50, 51, 52, 53, 54, 55, 56, 57, 97, 98, 99, 100, 101, 102]

/-- One step of the first loop of `retrieve_sheet`. -/
def escapeNameByte (c : UInt8) : List UInt8 :=
  if (65 ≤ c ∧ c ≤ 90) ∨ (97 ≤ c ∧ c ≤ 122) ∨ (48 ≤ c ∧ c ≤ 57) ∨ c = 45 ∨ c = 95 ∨ c = 46 ∨ c = 126 then [c]
  else [37, hexChar.getD ((c >>> 4) &&& 0xf).toNat 0, hexChar.getD ((c >>> 0) &&& 0xf).toNat 0]

/-- The unreserved characters: letters, digits, `-`, `.`, `_` and `~`. -/
def Unreserved (c : UInt8) : Prop :=
  (65 ≤ c ∧ c ≤ 90) ∨ (97 ≤ c ∧ c ≤ 122) ∨ (48 ≤ c ∧ c ≤ 57) ∨ c ∈ [45, 46, 95, 126]

instance : DecidablePred Unreserved := fun _ => inferInstanceAs (Decidable (_ ∨ _))

/-- The table and the shifts are the digits of the byte, byte by byte. -/
theorem escapeNameByte_all : ∀ n < 256, escapeNameByte n.toUInt8 = Percent.encodeByte Unreserved n.toUInt8 := by
  decide +kernel

/-- One step of the loop writes one byte percent-encoded. -/
theorem escapeNameByte_eq (c : UInt8) : escapeNameByte c = Percent.encodeByte Unreserved c := by
  have h := escapeNameByte_all c.toNat c.toNat_lt
  rwa [show c.toNat.toUInt8 = c from UInt8.ofNat_toNat] at h

theorem flatMap_escapeNameByte (cs : List UInt8) : cs.flatMap escapeNameByte = Percent.encode Unreserved cs :=
  congrArg (List.flatMap · cs) (funext escapeNameByte_eq)

/-- A byte that is written is no NUL. -/
theorem zero_notMem_encoded {cs : List UInt8} (h : Percent.Encoded Unreserved cs) : (0 : UInt8) ∉ cs := by
  induction h with
  | nil => exact List.not_mem_nil
  | kept hc _ ih =>
      rw [List.mem_cons, not_or]
      refine ⟨?_, ih⟩
      rintro rfl
      exact absurd hc (by decide)
  | triple hhigh hlow _ ih =>
      simp only [List.mem_cons, not_or]
      refine ⟨by decide, ?_, ?_, ih⟩
      · rintro rfl
        exact absurd hhigh (by decide)
      · rintro rfl
        exact absurd hlow (by decide)

/-- `escaped_name`. -/
def escapedName (name : CString) : CString where
  bytes := name.bytes.flatMap escapeNameByte
  noNul := by
    rw [flatMap_escapeNameByte]
    exact zero_notMem_encoded (Percent.encoded_encode name.bytes)

/-- The name is percent-encoded. -/
theorem bytes_escapedName (name : CString) : (escapedName name).bytes = Percent.encode Unreserved name.bytes :=
  flatMap_escapeNameByte name.bytes

/-- **Sheet names.** The escaped name of every sheet is made of unreserved characters and of percent signs with two
    hexadecimal digits, percent-decoding gives the name, and no other name has this escaped name. -/
theorem escapedName_reversible (name : CString) :
    Percent.Encoded Unreserved (escapedName name).bytes ∧
      Percent.decode (escapedName name).bytes = some name.bytes ∧
      ∀ other, escapedName other = escapedName name → other = name := by
  have hsign : ¬ Unreserved Percent.sign := by decide
  rw [bytes_escapedName]
  refine ⟨Percent.encoded_encode name.bytes, Percent.decode_encode hsign name.bytes, ?_⟩
  intro other hother
  have hbytes := congrArg CString.bytes hother
  rw [bytes_escapedName, bytes_escapedName] at hbytes
  exact CString.ext (Percent.encode_injective hsign hbytes)

example : (escapedName (CString.lit "hw1 100%")).bytes = (CString.lit "hw1%20100%25").bytes := by decide +kernel

end Hand2
