import Hand2.Announce.Requests
import Hand2.Library.Escaping

/-!
# `Announce.Escaped` — a body cannot leave its quotes

`escape_string` writes with a code in the sense of `Library.Escaping`: a backslash and a letter for the eight bytes
it knows, itself for every other byte. So whatever the bytes of a report are (backslashes in front of quotes, bytes
above `0x7f`), a scanner behind the opening quote stops at the quote that the request puts behind the body.
-/

namespace Hand2

open Escaping

/-- The letter behind the backslash, for the bytes that `escape_string` knows. -/
def jsonLetter (c : UInt8) : Option UInt8 :=
  if c = 34 then some 34
  else if c = 92 then some 92
  else if c = 47 then some 47
  else if c = 8 then some 98
  else if c = 12 then some 102
  else if c = 10 then some 110
  else if c = 13 then some 114
  else if c = 9 then some 116
  else none

/-- The byte a two-character escape of JSON stands for. -/
def jsonValue (e : UInt8) : Option UInt8 :=
  if e = 34 then some 34
  else if e = 92 then some 92
  else if e = 47 then some 47
  else if e = 98 then some 8
  else if e = 102 then some 12
  else if e = 110 then some 10
  else if e = 114 then some 13
  else if e = 116 then some 9
  else none

theorem jsonValue_jsonLetter {c e : UInt8} (h : jsonLetter c = some e) : jsonValue e = some c := by
  unfold jsonLetter at h
  -- one case for each of the eight escapes
  split_ifs at h with hc hc hc hc hc hc hc hc
  all_goals
    cases h
    rw [hc]
    rfl

/-- The two-character escapes of JSON. -/
def jsonCode : Code UInt8 where
  quote := 34
  sign := 92
  letter := jsonLetter
  value := jsonValue
  quote_ne_sign := by decide
  letter_quote := by decide
  letter_sign := by decide
  value_letter := jsonValue_jsonLetter

/-- One step of `escape_string` writes one byte in the code. -/
theorem escapeByte_eq (c : UInt8) : escapeByte c = jsonCode.escapeItem c := by
  unfold escapeByte
  split_ifs with h34 h92 h47 h8 h12 h10 h13 h9
  -- the eight escapes, then the byte that is copied
  iterate 8
    · subst c
      rfl
  · simp [Code.escapeItem, jsonCode, jsonLetter, h34, h92, h47, h8, h12, h10, h13, h9]

/-- `escape_string` writes its string in the code. -/
theorem bytes_escapeString_eq (string : CString) : (escapeString string).bytes = jsonCode.escape string.bytes :=
  congrArg (List.flatMap · string.bytes) (funext escapeByte_eq)

/-- **Escaping.** Whatever the string, in the output of `escape_string` every double quote stands behind an odd run of
    backslashes and an even run, if any, stands at its end. So a scanner behind an opening quote stops exactly at the
    quote that is put behind the output, whatever follows it, and decoding the two-character escapes gives the
    string. -/
theorem escapeString_reversible (string : CString) :
    (∀ pre post, (escapeString string).bytes = pre ++ 34 :: post → Odd (signsAtEnd 92 pre)) ∧
      Even (signsAtEnd 92 (escapeString string).bytes) ∧
      (∀ rest, scan 34 92 ((escapeString string).bytes ++ 34 :: rest) = some ((escapeString string).bytes, rest)) ∧
      jsonCode.unescape (escapeString string).bytes = some string.bytes := by
  rw [bytes_escapeString_eq]
  obtain ⟨hquotes, hend⟩ := jsonCode.closed_escape string.bytes
  exact ⟨hquotes, hend, jsonCode.scan_escape string.bytes, jsonCode.unescape_escape string.bytes⟩

/-- A body that tries to close its quotes. -/
example : scan 34 92 ((escapeString (CString.lit "\\\",\"x\\")).bytes ++ 34 :: [44]) =
    some ((CString.lit "\\\\\\\",\\\"x\\\\").bytes, [44]) := by
  decide +kernel

end Hand2
