import Hand2.Json
import Mathlib.Data.Rat.Defs

/-!
# `Json.Parse` — `cJSON_Parse`

The parser of the vendored cJSON library. A `parse_buffer` is the bytes from its offset on, and the string that is
parsed ends in its terminator, which the length counts in. A read behind the length and a write behind the end of an
output are faults; that the memory for an item is there is taken for granted.
-/

namespace Hand2

namespace CJson

/-- The ways in which the parser could go wrong. -/
inductive ParseFault where
  /-- A read or a write outside the memory at hand. -/
  | outOfBounds
  /-- The bound on loop rounds handed to the model was too small. -/
  | outOfFuel
  deriving DecidableEq

/-- A `parse_buffer`: its bytes from the offset on. -/
abbrev ParseBuffer := List UInt8

/-- What a function of the parser returns: nothing for `false`, or a value and the buffer behind it. -/
abbrev Parsed (α : Type) := Option (α × ParseBuffer)

/-- `CJSON_NESTING_LIMIT`. -/
def nestingLimit : Nat := 1000

def quote : UInt8 := 34
def backslash : UInt8 := 92
def comma : UInt8 := 44
def colon : UInt8 := 58
def openBracket : UInt8 := 91
def closeBracket : UInt8 := 93
def openBrace : UInt8 := 123
def closeBrace : UInt8 := 125

/-- `buffer_at_offset(buffer)[i]`. -/
def readAt (buffer : ParseBuffer) (i : Nat) : Except ParseFault UInt8 :=
  match buffer[i]? with
  | some c => .ok c
  | none   => .error .outOfBounds

/-- `buffer_skip_whitespace`, which does not go beyond the last byte. -/
def bufferSkipWhitespace (buffer : ParseBuffer) : ParseBuffer :=
  match buffer.dropWhile (· ≤ 32) with
  | []        => buffer.drop (buffer.length - 1)
  | c :: rest => c :: rest

/-- `skip_utf8_bom`. -/
def skipUtf8Bom (buffer : ParseBuffer) : ParseBuffer :=
  if 4 < buffer.length ∧ buffer.take 3 = [0xEF, 0xBB, 0xBF] then buffer.drop 3 else buffer

/-! ## Strings -/

/-- A digit of `parse_hex4`. -/
def hexDigit (c : UInt8) : Option Nat :=
  if 48 ≤ c ∧ c ≤ 57 then some (c.toNat - 48)
  else if 65 ≤ c ∧ c ≤ 70 then some (10 + c.toNat - 65)
  else if 97 ≤ c ∧ c ≤ 102 then some (10 + c.toNat - 97)
  else none

/-- The loop of `parse_hex4`, with that many rounds to go. -/
def parseHex4Loop : Nat → ParseBuffer → Nat → Except ParseFault Nat
  | 0,          _,     h => .ok h
  | rounds + 1, input, h => do
      let c ← readAt input 0
      match hexDigit c with
      | none   => .ok 0
      | some d => parseHex4Loop rounds (input.drop 1) (if rounds = 0 then h + d else (h + d) * 16)

/-- `parse_hex4`. -/
def parseHex4 (input : ParseBuffer) : Except ParseFault Nat := parseHex4Loop 4 input 0

/-- The loop that encodes the bytes behind the first, from the last on: what is left of the code point, and the
    bytes. -/
def utf8Tail : Nat → Nat → List UInt8 → Nat × List UInt8
  | 0,                codepoint, bytes => (codepoint, bytes)
  | utf8Position + 1, codepoint, bytes =>
      utf8Tail utf8Position (codepoint >>> 6) (((codepoint ||| 0x80) &&& 0xBF).toUInt8 :: bytes)

/-- The `utf8_length` bytes of a code point. -/
def utf8Bytes (utf8Length firstByteMark codepoint : Nat) : List UInt8 :=
  let (codepoint, bytes) := utf8Tail (utf8Length - 1) codepoint []
  (if 1 < utf8Length then ((codepoint ||| firstByteMark) &&& 0xFF).toUInt8 else (codepoint &&& 0x7F).toUInt8) :: bytes

/-- The second half of `utf16_literal_to_utf8`. -/
def encodeCodepoint (codepoint : Nat) : Option (List UInt8) :=
  if codepoint < 0x80 then some (utf8Bytes 1 0 codepoint)
  else if codepoint < 0x800 then some (utf8Bytes 2 0xC0 codepoint)
  else if codepoint < 0x10000 then some (utf8Bytes 3 0xE0 codepoint)
  else if codepoint ≤ 0x10FFFF then some (utf8Bytes 4 0xF0 codepoint)
  else none

/-- `utf16_literal_to_utf8`, with `left` bytes in front of the closing quote: the length of the sequence and what it
    writes, or nothing for `0`. -/
def utf16LiteralToUtf8 (input : ParseBuffer) (left : Nat) : Except ParseFault (Option (Nat × List UInt8)) :=
  if left < 6 then .ok none
  else do
    let firstCode ← parseHex4 (input.drop 2)
    if 0xDC00 ≤ firstCode ∧ firstCode ≤ 0xDFFF then .ok none
    else if 0xD800 ≤ firstCode ∧ firstCode ≤ 0xDBFF then
      if left - 6 < 6 then .ok none
      else do
        let c0 ← readAt input 6
        let c1 ← readAt input 7
        if c0 ≠ backslash ∨ c1 ≠ 117 then .ok none
        else do
          let secondCode ← parseHex4 (input.drop 8)
          if secondCode < 0xDC00 ∨ 0xDFFF < secondCode then .ok none
          else
            let codepoint := 0x10000 + (((firstCode &&& 0x3FF) <<< 10) ||| (secondCode &&& 0x3FF))
            .ok ((encodeCodepoint codepoint).map fun bytes => (12, bytes))
    else .ok ((encodeCodepoint firstCode).map fun bytes => (6, bytes))

/-- The first loop of `parse_string`: how many bytes there are in front of the closing quote, and how many of them are
    skipped as the first of an escape sequence. -/
def scanString : ParseBuffer → Option (Nat × Nat)
  | []        => none
  | c :: rest =>
      if c = quote then some (0, 0)
      else if c = backslash then
        match rest with
        | []        => none
        | _ :: rest => (scanString rest).map fun s => (s.1 + 2, s.2 + 1)
      else (scanString rest).map fun s => (s.1 + 1, s.2)

/-- The switch of `parse_string`: the length of the sequence and what it writes. -/
def escapeSequence (input : ParseBuffer) (left : Nat) : Except ParseFault (Option (Nat × List UInt8)) := do
  let e ← readAt input 1
  if e = 98 then .ok (some (2, [8]))
  else if e = 102 then .ok (some (2, [12]))
  else if e = 110 then .ok (some (2, [10]))
  else if e = 114 then .ok (some (2, [13]))
  else if e = 116 then .ok (some (2, [9]))
  else if e = quote ∨ e = backslash ∨ e = 47 then .ok (some (2, [e]))
  else if e = 117 then utf16LiteralToUtf8 input left
  else .ok none

/-- Writing behind what the output holds. -/
def writeOutput (size : Nat) (output bytes : List UInt8) : Except ParseFault (List UInt8) :=
  if output.length + bytes.length ≤ size then .ok (output ++ bytes) else .error .outOfBounds

/-- The second loop of `parse_string`: `input` starts at `input_pointer`, `left` bytes in front of `input_end`. -/
def unescapeLoop (size : Nat) : Nat → ParseBuffer → Nat → List UInt8 → Except ParseFault (Option (List UInt8))
  | _,        _,     0,        output => .ok (some output)
  | 0,        _,     _ + 1,    _      => .error .outOfFuel
  | fuel + 1, input, left + 1, output => do
      let c ← readAt input 0
      if c ≠ backslash then do
        let output ← writeOutput size output [c]
        unescapeLoop size fuel (input.drop 1) left output
      else do
        let sequence ← escapeSequence input (left + 1)
        match sequence with
        | none                => .ok none
        | some (length, bytes) => do
            let output ← writeOutput size output bytes
            unescapeLoop size fuel (input.drop length) (left + 1 - length) output

/-- `parse_string`: what the output holds, with its terminator. -/
def parseString (buffer : ParseBuffer) : Except ParseFault (Parsed (List UInt8)) := do
  let c ← readAt buffer 0
  if c ≠ quote then .ok none
  else
    match scanString (buffer.drop 1) with
    | none                => .ok none
    | some (len, skipped) => do
        let size := len + 1 - skipped + 1
        let output ← unescapeLoop size len (buffer.drop 1) len []
        match output with
        | none        => .ok none
        | some output => do
            let output ← writeOutput size output [0]
            .ok (some (output, buffer.drop (len + 2)))

/-! ## Numbers -/

/-- A `double`. -/
inductive Double where
  | finite (value : Rat)
  | infinite (negative : Bool)

/-- The `valueint` of a number: the part in front of the point, within the range of an `int`. -/
def Double.valueint : Double → Int
  | finite value =>
      if intMax ≤ value then intMax
      else if value ≤ (-2147483648 : Int) then -2147483648
      else value.num.tdiv value.den
  | infinite negative => if negative then -2147483648 else intMax

/-- `strtod`: how many bytes it reads, none behind the terminator, and the number. There is no NaN among the texts that
    it is called on. -/
structure Strtod where
  read : List UInt8 → Nat × Double
  read_le : ∀ text, (read text).1 ≤ text.length

/-- A byte that `parse_number` copies. -/
def isNumberChar (c : UInt8) : Bool := isDigit c || c == 43 || c == 45 || c == 101 || c == 69 || c == 46

/-- `parse_number`. -/
def parseNumber (strtod : Strtod) (buffer : ParseBuffer) : Except ParseFault (Parsed CJson) :=
  let number := strtod.read ((buffer.take 63).takeWhile isNumberChar)
  if number.1 = 0 then .ok none else .ok (some (.number number.2.valueint, buffer.drop number.1))

/-! ## Values -/

/-- `parse_value`, at one nesting. -/
abbrev ValueParser := ParseBuffer → Except ParseFault (Parsed CJson)

/-- The loop over the elements of an array, from behind the bracket or a comma. -/
def arrayLoop (parseValue : ValueParser) : Nat → ParseBuffer → Except ParseFault (Parsed (List CJson))
  | 0,        _      => .error .outOfFuel
  | fuel + 1, buffer => do
      let item ← parseValue (bufferSkipWhitespace buffer)
      match item with
      | none                => .ok none
      | some (item, buffer) =>
          let buffer := bufferSkipWhitespace buffer
          if buffer.head? = some comma then do
            let items ← arrayLoop parseValue fuel (buffer.drop 1)
            .ok (items.map fun items => (item :: items.1, items.2))
          else .ok (some ([item], buffer))

/-- `parse_array`, below the limit. -/
def parseArray (parseValue : ValueParser) (buffer : ParseBuffer) : Except ParseFault (Parsed CJson) := do
  let buffer := bufferSkipWhitespace (buffer.drop 1)
  if buffer.head? = some closeBracket then .ok (some (.array [], buffer.drop 1))
  else if buffer = [] then .ok none
  else do
    let items ← arrayLoop parseValue buffer.length buffer
    match items with
    | none                 => .ok none
    | some (items, buffer) =>
        if buffer.head? = some closeBracket then .ok (some (.array items, buffer.drop 1)) else .ok none

/-- The loop over the members of an object, from behind the brace or a comma. -/
def objectLoop (parseValue : ValueParser) : Nat → ParseBuffer → Except ParseFault (Parsed (List (CString × CJson)))
  | 0,        _      => .error .outOfFuel
  | fuel + 1, buffer => do
      let name ← parseString (bufferSkipWhitespace buffer)
      match name with
      | none                => .ok none
      | some (name, buffer) =>
          let buffer := bufferSkipWhitespace buffer
          if buffer.head? ≠ some colon then .ok none
          else do
            let item ← parseValue (bufferSkipWhitespace (buffer.drop 1))
            match item with
            | none                => .ok none
            | some (item, buffer) =>
                let buffer := bufferSkipWhitespace buffer
                let first := (CString.ofBytes name, item)
                if buffer.head? = some comma then do
                  let members ← objectLoop parseValue fuel (buffer.drop 1)
                  .ok (members.map fun members => (first :: members.1, members.2))
                else .ok (some ([first], buffer))

/-- `parse_object`, below the limit. -/
def parseObject (parseValue : ValueParser) (buffer : ParseBuffer) : Except ParseFault (Parsed CJson) := do
  let buffer := bufferSkipWhitespace (buffer.drop 1)
  if buffer.head? = some closeBrace then .ok (some (.object [], buffer.drop 1))
  else if buffer = [] then .ok none
  else do
    let members ← objectLoop parseValue buffer.length buffer
    match members with
    | none                   => .ok none
    | some (members, buffer) =>
        if buffer.head? = some closeBrace then .ok (some (.object members, buffer.drop 1)) else .ok none

/-- `null`, `false` and `true`. -/
def nullBytes : List UInt8 := [110, 117, 108, 108]
def falseBytes : List UInt8 := [102, 97, 108, 115, 101]
def trueBytes : List UInt8 := [116, 114, 117, 101]

/-- `parse_value`, with that much nesting to go. -/
def parseValue (strtod : Strtod) (nesting : Nat) (buffer : ParseBuffer) : Except ParseFault (Parsed CJson) :=
  if buffer.take 4 = nullBytes then .ok (some (.null, buffer.drop 4))
  else if buffer.take 5 = falseBytes then .ok (some (.bool false, buffer.drop 5))
  else if buffer.take 4 = trueBytes then .ok (some (.bool true, buffer.drop 4))
  else
    match buffer with
    | []     => .ok none
    | c :: _ =>
        if c = quote then do
          let string ← parseString buffer
          .ok (string.map fun s => (.string (CString.ofBytes s.1), s.2))
        else if c = 45 ∨ isDigit c then parseNumber strtod buffer
        else if c = openBracket then
          match nesting with
          | 0           => .ok none
          | nesting + 1 => parseArray (parseValue strtod nesting) buffer
        else if c = openBrace then
          match nesting with
          | 0           => .ok none
          | nesting + 1 => parseObject (parseValue strtod nesting) buffer
        else .ok none

/-- `cJSON_Parse`. What is behind the value is not looked at. -/
def parse (strtod : Strtod) (value : CString) : Except ParseFault (Option CJson) := do
  let item ← parseValue strtod nestingLimit (bufferSkipWhitespace (skipUtf8Bom (value.bytes ++ [0])))
  .ok (item.map (·.1))

end CJson

end Hand2
