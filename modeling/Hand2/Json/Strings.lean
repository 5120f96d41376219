import Hand2.Json.Safety
import Hand2.Library.JsonText
import Hand2.Library.Utf16
import Mathlib.Tactic.SplitIfs

/-!
# `Json.Strings` — what `parse_string` makes of a JSON string

The bytes between the quotes of a string are characters, escape sequences of two bytes and escape sequences of a code
unit (`Escaped`). `parse_string` makes of them the text that the units spell, and fails exactly on those that spell
none (`parseString_chars`).
-/

namespace Hand2

namespace CJson

open Utf8 JsonText

/-- The buffer in front of a text. -/
def bufferOf (text : List Char) : ParseBuffer := utf8 text ++ [0]

theorem bufferOf_append (a b : List Char) : bufferOf (a ++ b) = utf8 a ++ bufferOf b := by
  simp [bufferOf]

theorem bufferOf_cons (c : Char) (text : List Char) : bufferOf (c :: text) = String.utf8EncodeChar c ++ bufferOf text :=
  by simp [bufferOf]

theorem terminated_bufferOf (text : List Char) : Terminated (bufferOf text) := by
  unfold Terminated bufferOf
  rw [List.getLast?_concat]

/-! ## Code points -/

/-- The low six bits under the mark of a byte that is not the first. -/
theorem tailByte (codepoint : Nat) : ((codepoint ||| 0x80) &&& 0xBF).toUInt8 = (codepoint % 64 + 128).toUInt8 := by
  have hbits : ((codepoint ||| 0x80) &&& 0xBF) = codepoint % 64 + 128 := by
    have hlow : codepoint % 256 < 256 := Nat.mod_lt _ (by decide)
    have hall : ∀ n < 256, (n ||| 0x80) &&& 0xBF = n % 64 + 128 := by decide +kernel
    have hmod : (codepoint ||| 0x80) &&& 0xBF = (codepoint % 256 ||| 0x80) &&& 0xBF := by
      apply Nat.eq_of_testBit_eq
      intro i
      have h256 : (256 : Nat) = 2 ^ 8 := rfl
      rw [h256]
      simp only [Nat.testBit_and, Nat.testBit_or, Nat.testBit_mod_two_pow]
      by_cases hi : i < 8
      · simp [hi]
      · have hbit : Nat.testBit 0xBF i = false :=
          Nat.testBit_lt_two_pow
            (Nat.lt_of_lt_of_le (by decide : 0xBF < 2 ^ 8) (Nat.pow_le_pow_right (by decide) (by omega)))
        rw [hbit]
        simp
    rw [hmod, hall _ hlow]
    omega
  rw [hbits]

/-- The bits of the first byte, for each of its marks. -/
theorem firstByte (codepoint bound mark : Nat) (hlt : codepoint < bound)
    (hmark : ∀ n < bound, ((n ||| mark) &&& 0xFF) = n + mark) :
    ((codepoint ||| mark) &&& 0xFF).toUInt8 = (codepoint + mark).toUInt8 := by
  rw [hmark codepoint hlt]

/-- **The encoding of a code point** is that of the character. -/
theorem encodeCodepoint_char (c : Char) : encodeCodepoint c.toNat = some (String.utf8EncodeChar c) := by
  have hval : c.val.toNat = c.toNat := rfl
  have hle := toNat_le c
  unfold encodeCodepoint String.utf8EncodeChar
  simp only [hval]
  by_cases h1 : c.toNat < 0x80
  · have hall : ∀ n < 0x80, (n &&& 0x7F) = n := by decide +kernel
    rw [if_pos h1, if_pos (show c.toNat ≤ 0x7f by omega)]
    simp only [utf8Bytes, utf8Tail, Nat.sub_self, Nat.lt_irrefl, if_false, hall _ h1]
  · rw [if_neg h1, if_neg (show ¬ c.toNat ≤ 0x7f by omega)]
    by_cases h2 : c.toNat < 0x800
    · rw [if_pos h2, if_pos (show c.toNat ≤ 0x7ff by omega)]
      have hfirst := firstByte (c.toNat / 64) 32 0xC0 (by omega) (by decide +kernel)
      simp only [utf8Bytes, utf8Tail, Nat.shiftRight_eq_div_pow, tailByte]
      rw [if_pos (by decide), hfirst, Nat.mod_eq_of_lt (show c.toNat / 64 < 0x20 by omega)]
    · rw [if_neg h2, if_neg (show ¬ c.toNat ≤ 0x7ff by omega)]
      by_cases h3 : c.toNat < 0x10000
      · rw [if_pos h3, if_pos (show c.toNat ≤ 0xffff by omega)]
        have hfirst := firstByte (c.toNat / 4096) 16 0xE0 (by omega)
          (by decide +kernel)
        simp only [utf8Bytes, utf8Tail, Nat.shiftRight_eq_div_pow, tailByte, Nat.div_div_eq_div_mul]
        rw [if_pos (by decide), hfirst, Nat.mod_eq_of_lt (show c.toNat / 4096 < 0x10 by omega)]
      · rw [if_neg h3, if_pos hle, if_neg (show ¬ c.toNat ≤ 0xffff by omega)]
        have hfirst := firstByte (c.toNat / 262144) 8 0xF0 (by omega)
          (by decide +kernel)
        simp only [utf8Bytes, utf8Tail, Nat.shiftRight_eq_div_pow, tailByte, Nat.div_div_eq_div_mul]
        rw [if_pos (by decide), hfirst, Nat.mod_eq_of_lt (show c.toNat / 262144 < 0x08 by omega)]

/-! ## Escape sequences -/

/-- Four digits that stand for a code unit. -/
structure HexUnit (digits : List UInt8) (u : Nat) : Prop where
  length : digits.length = 4
  value : ∀ behind, parseHex4 (digits ++ behind) = .ok u
  plain : ∀ b ∈ digits, b ≠ quote ∧ b ≠ backslash

theorem HexUnit.length_append {digits : List UInt8} {u : Nat} (h : HexUnit digits u) (content : List UInt8) :
    (117 :: (digits ++ content)).length = content.length + 5 := by
  rw [List.length_cons, List.length_append, h.length]
  omega

/-- A hexadecimal digit is a byte, with the same value. -/
theorem hexDigit_byte {c : Char} {d : Nat} (h : JsonText.hexDigit c = some d) :
    String.utf8EncodeChar c = [c.toNat.toUInt8] ∧ hexDigit c.toNat.toUInt8 = some d ∧
      c.toNat.toUInt8 ≠ quote ∧ c.toNat.toUInt8 ≠ backslash := by
  have hsmall : c.toNat < 128 := by
    have hle : ∀ d : Char, c ≤ d → c.toNat ≤ d.toNat := fun d hcd => UInt32.le_iff_toNat_le.mp hcd
    unfold JsonText.hexDigit at h
    split at h
    · next hc => exact Nat.lt_of_le_of_lt (hle _ hc.2) (by decide)
    · split at h
      · next hc => exact Nat.lt_of_le_of_lt (hle _ hc.2) (by decide)
      · split at h
        · next hc => exact Nat.lt_of_le_of_lt (hle _ hc.2) (by decide)
        · cases h
  have hall : ∀ n < 128, JsonText.hexDigit (Char.ofNat n) = hexDigit n.toUInt8 ∧
      (hexDigit n.toUInt8 ≠ none → n.toUInt8 ≠ quote ∧ n.toUInt8 ≠ backslash) := by decide +kernel
  obtain ⟨hsame, hplain⟩ := hall c.toNat hsmall
  rw [Char.ofNat_toNat, h] at hsame
  exact ⟨utf8EncodeChar_ascii hsmall, hsame.symm, hplain (by rw [← hsame]; simp)⟩

theorem hexUnit_of_digits {h₁ h₂ h₃ h₄ : Char} {d₁ d₂ d₃ d₄ : Nat} (hd₁ : JsonText.hexDigit h₁ = some d₁)
    (hd₂ : JsonText.hexDigit h₂ = some d₂) (hd₃ : JsonText.hexDigit h₃ = some d₃)
    (hd₄ : JsonText.hexDigit h₄ = some d₄) :
    HexUnit (utf8 [h₁, h₂, h₃, h₄]) (d₁ * 4096 + d₂ * 256 + d₃ * 16 + d₄) := by
  obtain ⟨hb₁, hv₁, hp₁⟩ := hexDigit_byte hd₁
  obtain ⟨hb₂, hv₂, hp₂⟩ := hexDigit_byte hd₂
  obtain ⟨hb₃, hv₃, hp₃⟩ := hexDigit_byte hd₃
  obtain ⟨hb₄, hv₄, hp₄⟩ := hexDigit_byte hd₄
  have hbytes : utf8 [h₁, h₂, h₃, h₄]
      = [h₁.toNat.toUInt8, h₂.toNat.toUInt8, h₃.toNat.toUInt8, h₄.toNat.toUInt8] := by
    simp [hb₁, hb₂, hb₃, hb₄]
  rw [hbytes]
  refine ⟨rfl, ?_, ?_⟩
  · intro behind
    have hvalue : ((d₁ * 16 + d₂) * 16 + d₃) * 16 + d₄ = d₁ * 4096 + d₂ * 256 + d₃ * 16 + d₄ := by omega
    simp [parseHex4, parseHex4Loop, readAt, Loops.ok_bind, hv₁, hv₂, hv₃, hv₄, hvalue]
  · intro b hb
    simp only [List.mem_cons, List.not_mem_nil, or_false] at hb
    rcases hb with rfl | rfl | rfl | rfl
    · exact hp₁
    · exact hp₂
    · exact hp₃
    · exact hp₄

/-- The bytes between the quotes of a string, and the code units that they denote. -/
inductive Escaped : List UInt8 → List Nat → Prop where
  | nil : Escaped [] []
  | plain {c : Char} {content : List UInt8} {units : List Nat} (hplain : Unescaped c) (hrest : Escaped content units) :
      Escaped (String.utf8EncodeChar c ++ content) (utf16Char c ++ units)
  | escape {e : Char} {u : Nat} {content : List UInt8} {units : List Nat} (hunit : escapeUnit e = some u)
      (hrest : Escaped content units) : Escaped (backslash :: (String.utf8EncodeChar e ++ content)) (u :: units)
  | hex {digits content : List UInt8} {u : Nat} {units : List Nat} (hdigits : HexUnit digits u)
      (hrest : Escaped content units) : Escaped (backslash :: 117 :: (digits ++ content)) (u :: units)

theorem escaped_of_chars {cs : List Char} {units : List Nat} {rest : List Char} (h : Chars cs units rest) :
    ∃ content, bufferOf cs = content ++ quote :: bufferOf rest ∧ Escaped content units := by
  induction h with
  | close => exact ⟨[], rfl, .nil⟩
  | plain hplain _ ih =>
      obtain ⟨content, hcontent, hescaped⟩ := ih
      exact ⟨_, by rw [bufferOf_cons, hcontent, List.append_assoc], .plain hplain hescaped⟩
  | @escape e _ _ _ _ hunit _ ih =>
      obtain ⟨content, hcontent, hescaped⟩ := ih
      refine ⟨_, ?_, .escape hunit hescaped⟩
      rw [bufferOf_cons, bufferOf_cons, hcontent]
      show backslash :: _ = _
      simp
  | @hex h₁ h₂ h₃ h₄ _ _ _ _ _ _ _ hd₁ hd₂ hd₃ hd₄ _ ih =>
      obtain ⟨content, hcontent, hescaped⟩ := ih
      refine ⟨_, ?_, .hex (hexUnit_of_digits hd₁ hd₂ hd₃ hd₄) hescaped⟩
      rw [bufferOf_cons, bufferOf_cons, bufferOf_cons, bufferOf_cons, bufferOf_cons, bufferOf_cons, hcontent]
      show backslash :: 117 :: _ = _
      simp

/-- An escape sequence of two bytes. -/
theorem escapeSequence_unit {e : Char} {u : Nat} (h : escapeUnit e = some u) :
    ∃ b, String.utf8EncodeChar e = [b] ∧ b ≠ 117 ∧ ¬ HighSurrogate u ∧ ¬ LowSurrogate u ∧
      ∀ behind left, escapeSequence (backslash :: b :: behind) left
        = .ok (some (2, String.utf8EncodeChar (Char.ofNat u))) := by
  unfold escapeUnit at h
  split_ifs at h with he he he he he he he he
  all_goals
    cases h
    subst he
    exact ⟨_, rfl, by decide, by decide, by decide, fun _ _ => rfl⟩

/-! ## Plain bytes -/

/-- Bytes that neither loop takes for anything else. -/
def PlainBytes (bytes : List UInt8) : Prop := ∀ b ∈ bytes, b ≠ quote ∧ b ≠ backslash

theorem plainBytes_char {c : Char} (h : Unescaped c) : PlainBytes (String.utf8EncodeChar c) := by
  intro b hb
  rcases Nat.lt_or_ge c.toNat 128 with hsmall | hlarge
  · rw [utf8EncodeChar_ascii hsmall, List.mem_singleton] at hb
    have hbyte : b.toNat = c.toNat := by
      rw [hb, Nat.toUInt8_eq, UInt8.toNat_ofNat']
      omega
    have hne : ∀ d : Char, c ≠ d → b.toNat ≠ d.toNat := by
      intro d hd heq
      apply hd
      rw [← Char.ofNat_toNat c, ← Char.ofNat_toNat d, ← hbyte, heq]
    refine ⟨fun hq => hne _ h.2.1 ?_, fun hq => hne _ h.2.2 ?_⟩
    · rw [hq]
      rfl
    · rw [hq]
      rfl
  · have hle := le_of_mem_utf8EncodeChar hlarge hb
    constructor
    · rintro rfl
      exact absurd hle (by decide)
    · rintro rfl
      exact absurd hle (by decide)

theorem scanString_plain {bytes : List UInt8} (h : PlainBytes bytes) (behind : ParseBuffer) :
    scanString (bytes ++ behind) = (scanString behind).map fun s => (s.1 + bytes.length, s.2) := by
  induction bytes with
  | nil => simp
  | cons b bytes ih =>
      obtain ⟨hquote, hback⟩ := h b List.mem_cons_self
      rw [List.cons_append, scanString.eq_def]
      dsimp only
      rw [if_neg hquote, if_neg hback, ih (fun c hc => h c (List.mem_cons_of_mem _ hc)), Option.map_map]
      rfl

/-- Behind a backslash the next byte is skipped. -/
theorem scanString_backslash (b : UInt8) (behind : ParseBuffer) :
    scanString (backslash :: b :: behind) = (scanString behind).map fun s => (s.1 + 2, s.2 + 1) := by
  rw [scanString.eq_def]
  rfl

/-- The first loop finds the closing quote. -/
theorem scanString_escaped {content : List UInt8} {units : List Nat} (h : Escaped content units)
    (behind : ParseBuffer) : ∃ skipped, scanString (content ++ quote :: behind) = some (content.length, skipped) := by
  induction h with
  | nil =>
      refine ⟨0, ?_⟩
      rw [List.nil_append, scanString.eq_def]
      rfl
  | plain hplain _ ih =>
      obtain ⟨skipped, hscan⟩ := ih
      refine ⟨skipped, ?_⟩
      rw [List.append_assoc, scanString_plain (plainBytes_char hplain), hscan, Option.map_some, List.length_append,
        Nat.add_comm]
  | escape hunit _ ih =>
      obtain ⟨skipped, hscan⟩ := ih
      obtain ⟨b, hb, -⟩ := escapeSequence_unit hunit
      refine ⟨skipped + 1, ?_⟩
      rw [hb, List.singleton_append, List.cons_append, List.cons_append, scanString_backslash, hscan]
      rfl
  | @hex digits content _ _ hdigits _ ih =>
      obtain ⟨skipped, hscan⟩ := ih
      refine ⟨skipped + 1, ?_⟩
      show scanString (backslash :: 117 :: (digits ++ content ++ quote :: behind)) = _
      rw [scanString_backslash, List.append_assoc, scanString_plain hdigits.plain, hscan]
      simp only [Option.map_some, List.length_cons, List.length_append]
      congr 2
      omega

/-- A write that happens. -/
theorem eq_of_writeOutput {size : Nat} {output bytes out : List UInt8} (h : writeOutput size output bytes = .ok out) :
    out = output ++ bytes := by
  unfold writeOutput at h
  split at h
  · cases h
    rfl
  · cases h

section Unescape

variable {size fuel left : Nat} {behind : ParseBuffer} {output : List UInt8} {result : Option (List UInt8)}

/-- Plain bytes are copied. -/
theorem unescapeLoop_plain {bytes : List UInt8} (h : PlainBytes bytes) (hfuel : bytes.length + left ≤ fuel)
    (hrun : unescapeLoop size fuel (bytes ++ behind) (bytes.length + left) output = .ok result) :
    ∃ fuel', left ≤ fuel' ∧ unescapeLoop size fuel' behind left (output ++ bytes) = .ok result := by
  induction bytes generalizing fuel output with
  | nil =>
      rw [List.length_nil, Nat.zero_add] at hfuel hrun
      exact ⟨fuel, hfuel, by rwa [List.append_nil]⟩
  | cons b bytes ih =>
      obtain ⟨-, hback⟩ := h b List.mem_cons_self
      rw [List.length_cons] at hfuel hrun
      obtain ⟨n, rfl⟩ := Nat.exists_eq_add_of_le' (show 1 ≤ fuel by omega)
      have hleft : bytes.length + 1 + left = bytes.length + left + 1 := by omega
      rw [hleft, unescapeLoop] at hrun
      obtain ⟨c, hc, hrun⟩ := Loops.bind_eq_ok hrun
      obtain rfl : b = c := Except.ok.inj hc
      rw [if_pos hback] at hrun
      obtain ⟨out, hout, hrun⟩ := Loops.bind_eq_ok hrun
      rw [eq_of_writeOutput hout] at hrun
      obtain ⟨fuel', hfuel', hrest⟩ := ih (fun c hc => h c (List.mem_cons_of_mem _ hc)) (by omega) hrun
      exact ⟨fuel', hfuel', by rwa [List.append_assoc, List.singleton_append] at hrest⟩

/-- An escape sequence of `length` bytes. -/
theorem unescapeLoop_sequence {input : ParseBuffer} {length : Nat} {bytes : List UInt8}
    (hsequence : escapeSequence (backslash :: input) (left + 1) = .ok (some (length, bytes))) (hpos : 1 ≤ length)
    (hfuel : left + 1 ≤ fuel)
    (hrun : unescapeLoop size fuel (backslash :: input) (left + 1) output = .ok result) :
    ∃ fuel', left + 1 - length ≤ fuel' ∧
      unescapeLoop size fuel' ((backslash :: input).drop length) (left + 1 - length) (output ++ bytes)
        = .ok result := by
  obtain ⟨n, rfl⟩ := Nat.exists_eq_add_of_le' (show 1 ≤ fuel by omega)
  rw [unescapeLoop] at hrun
  obtain ⟨c, hc, hrun⟩ := Loops.bind_eq_ok hrun
  obtain rfl : backslash = c := Except.ok.inj hc
  rw [if_neg (not_not.mpr rfl), hsequence, Loops.ok_bind] at hrun
  obtain ⟨out, hout, hrun⟩ := Loops.bind_eq_ok hrun
  rw [eq_of_writeOutput hout] at hrun
  exact ⟨n, by omega, hrun⟩

/-- An escape sequence that is none. -/
theorem unescapeLoop_none {input : ParseBuffer}
    (hsequence : escapeSequence (backslash :: input) (left + 1) = .ok none) (hfuel : left + 1 ≤ fuel)
    (hrun : unescapeLoop size fuel (backslash :: input) (left + 1) output = .ok result) : result = none := by
  obtain ⟨n, rfl⟩ := Nat.exists_eq_add_of_le' (show 1 ≤ fuel by omega)
  rw [unescapeLoop] at hrun
  obtain ⟨c, hc, hrun⟩ := Loops.bind_eq_ok hrun
  obtain rfl : backslash = c := Except.ok.inj hc
  rw [if_neg (not_not.mpr rfl), hsequence] at hrun
  cases hrun
  rfl

end Unescape

/-! ## Code units -/

section Literal

variable {digits : List UInt8} {u : Nat} {rest : ParseBuffer} {left : Nat}

theorem readAt_append {l rest : ParseBuffer} {n : Nat} (hlen : l.length = n) (i : Nat) :
    readAt (l ++ rest) (n + i) = readAt rest i := by
  unfold readAt
  rw [← hlen, List.getElem?_append_right (Nat.le_add_right _ _), Nat.add_sub_cancel_left]

theorem readAt_zero (c : UInt8) (rest : ParseBuffer) : readAt (c :: rest) 0 = .ok c := rfl

theorem readAt_one (c d : UInt8) (rest : ParseBuffer) : readAt (c :: d :: rest) 1 = .ok d := rfl

/-- `utf16_literal_to_utf8`, once the first four digits are read. -/
theorem utf16Literal_eq (h : HexUnit digits u) (hleft : 6 ≤ left) :
    utf16LiteralToUtf8 (backslash :: 117 :: (digits ++ rest)) left =
      if LowSurrogate u then .ok none
      else if HighSurrogate u then
        if left - 6 < 6 then .ok none
        else do
          let c0 ← readAt rest 0
          let c1 ← readAt rest 1
          if c0 ≠ backslash ∨ c1 ≠ 117 then .ok none
          else do
            let secondCode ← parseHex4 (rest.drop 2)
            if secondCode < 0xDC00 ∨ 0xDFFF < secondCode then .ok none
            else
              let codepoint := 0x10000 + (((u &&& 0x3FF) <<< 10) ||| (secondCode &&& 0x3FF))
              .ok ((encodeCodepoint codepoint).map fun bytes => (12, bytes))
      else .ok ((encodeCodepoint u).map fun bytes => (6, bytes)) := by
  have hlen : (backslash :: 117 :: digits).length = 6 := by simp [h.length]
  have h6 : readAt (backslash :: 117 :: (digits ++ rest)) 6 = readAt rest 0 := readAt_append hlen 0
  have h7 : readAt (backslash :: 117 :: (digits ++ rest)) 7 = readAt rest 1 := readAt_append hlen 1
  have h8 : (backslash :: 117 :: (digits ++ rest)).drop 8 = rest.drop 2 := by
    show (digits ++ rest).drop 6 = _
    rw [List.drop_append, List.drop_eq_nil_of_le (by rw [h.length]; omega), h.length]
    rfl
  have hfirst : parseHex4 ((backslash :: 117 :: (digits ++ rest)).drop 2) = .ok u := h.value rest
  unfold utf16LiteralToUtf8
  rw [if_neg (by omega), hfirst, Loops.ok_bind, h6, h7, h8]
  rfl

/-- A unit that is no surrogate. -/
theorem escapeSequence_single (h : HexUnit digits u) (hleft : 6 ≤ left) (hhigh : ¬ HighSurrogate u)
    (hlow : ¬ LowSurrogate u) : escapeSequence (backslash :: 117 :: (digits ++ rest)) left
      = .ok (some (6, String.utf8EncodeChar (Char.ofNat u))) := by
  have hlt : u < 0x10000 := parseHex4_lt (h.value [])
  have hpoint : (Char.ofNat u).toNat = u := by
    apply toNat_ofNat
    unfold HighSurrogate at hhigh
    unfold LowSurrogate at hlow
    by_cases hsmall : u < 0xD800
    · exact .inl hsmall
    · exact .inr ⟨by omega, by omega⟩
  have hencode := encodeCodepoint_char (Char.ofNat u)
  rw [hpoint] at hencode
  show utf16LiteralToUtf8 _ left = _
  rw [utf16Literal_eq h hleft, if_neg hlow, if_neg hhigh, hencode]
  rfl

/-- The second half of a pair without the first. -/
theorem escapeSequence_low (h : HexUnit digits u) (hleft : 6 ≤ left) (hlow : LowSurrogate u) :
    escapeSequence (backslash :: 117 :: (digits ++ rest)) left = .ok none := by
  show utf16LiteralToUtf8 _ left = _
  rw [utf16Literal_eq h hleft, if_pos hlow]

theorem not_low_of_high (h : HighSurrogate u) : ¬ LowSurrogate u := by
  unfold LowSurrogate
  unfold HighSurrogate at h
  omega

/-- The first half of a pair with something else behind it. -/
theorem escapeSequence_alone (h : HexUnit digits u) (hleft : 6 ≤ left) (hhigh : HighSurrogate u)
    (hrest : left - 6 < 6 ∨ ∃ c0 c1 rest', rest = c0 :: c1 :: rest' ∧ (c0 ≠ backslash ∨ c1 ≠ 117)) :
    escapeSequence (backslash :: 117 :: (digits ++ rest)) left = .ok none := by
  show utf16LiteralToUtf8 _ left = _
  rw [utf16Literal_eq h hleft, if_neg (not_low_of_high hhigh), if_pos hhigh]
  rcases hrest with hshort | ⟨c0, c1, rest', rfl, hother⟩
  · rw [if_pos hshort]
  · split
    · rfl
    · rw [readAt_zero, Loops.ok_bind, readAt_one, Loops.ok_bind, if_pos hother]

/-- The first half of a pair with another unit behind it. -/
theorem escapeSequence_unpaired {digits' : List UInt8} {v : Nat} (h : HexUnit digits u) (h' : HexUnit digits' v)
    (hleft : 12 ≤ left) (hhigh : HighSurrogate u) (hlow : ¬ LowSurrogate v) :
    escapeSequence (backslash :: 117 :: (digits ++ backslash :: 117 :: (digits' ++ rest))) left = .ok none := by
  have hsecond : parseHex4 ((backslash :: 117 :: (digits' ++ rest)).drop 2) = .ok v := h'.value rest
  show utf16LiteralToUtf8 _ left = _
  rw [utf16Literal_eq h (by omega), if_neg (not_low_of_high hhigh), if_pos hhigh, if_neg (by omega)]
  rw [readAt_zero, Loops.ok_bind, readAt_one, Loops.ok_bind, if_neg (by simp), hsecond, Loops.ok_bind, if_pos]
  unfold LowSurrogate at hlow
  omega

/-- A pair. -/
theorem escapeSequence_pair {digits' : List UInt8} {v : Nat} (h : HexUnit digits u) (h' : HexUnit digits' v)
    (hleft : 12 ≤ left) (hhigh : HighSurrogate u) (hlow : LowSurrogate v) :
    escapeSequence (backslash :: 117 :: (digits ++ backslash :: 117 :: (digits' ++ rest))) left
      = .ok (some (12, String.utf8EncodeChar (Char.ofNat (pairPoint u v)))) := by
  have hsecond : parseHex4 ((backslash :: 117 :: (digits' ++ rest)).drop 2) = .ok v := h'.value rest
  obtain ⟨hu0, hu1⟩ := hhigh
  obtain ⟨hv0, hv1⟩ := hlow
  have hpoint : 0x10000 + (((u &&& 0x3FF) <<< 10) ||| (v &&& 0x3FF)) = pairPoint u v := by
    have hu : u &&& 0x3FF = u - 0xD800 := by
      rw [show (0x3FF : Nat) = 2 ^ 10 - 1 from rfl, Nat.and_two_pow_sub_one_eq_mod]
      omega
    have hv : v &&& 0x3FF = v - 0xDC00 := by
      rw [show (0x3FF : Nat) = 2 ^ 10 - 1 from rfl, Nat.and_two_pow_sub_one_eq_mod]
      omega
    rw [hu, hv, ← Nat.shiftLeft_add_eq_or_of_lt (show v - 0xDC00 < 2 ^ 10 by omega), Nat.shiftLeft_eq]
    unfold pairPoint
    omega
  have hvalid : (pairPoint u v).isValidChar := by
    unfold pairPoint
    exact .inr ⟨by omega, by omega⟩
  have hencode := encodeCodepoint_char (Char.ofNat (pairPoint u v))
  rw [toNat_ofNat hvalid] at hencode
  show utf16LiteralToUtf8 _ left = _
  rw [utf16Literal_eq h (by omega), if_neg (not_low_of_high ⟨hu0, hu1⟩), if_pos ⟨hu0, hu1⟩, if_neg (by omega)]
  rw [readAt_zero, Loops.ok_bind, readAt_one, Loops.ok_bind, if_neg (by simp), hsecond, Loops.ok_bind,
    if_neg (by omega), hpoint]
  dsimp only
  rw [hencode]
  rfl

end Literal

/-! ## The string -/

section Loop

variable {size : Nat} {behind : ParseBuffer}

/-- What the second loop makes of the bytes between the quotes: the text of the units behind the output so far. -/
def Unescapes (size : Nat) (behind : ParseBuffer) (content : List UInt8) (units : List Nat) : Prop :=
  ∀ fuel output result, content.length ≤ fuel →
    unescapeLoop size fuel (content ++ quote :: behind) content.length output = .ok result →
    result = (decodeUtf16 units).map fun text => output ++ utf8 text

theorem unescapes_plain {c : Char} {content : List UInt8} {units : List Nat} (hplain : Unescaped c)
    (h : Unescapes size behind content units) :
    Unescapes size behind (String.utf8EncodeChar c ++ content) (utf16Char c ++ units) := by
  intro fuel output result hfuel hrun
  rw [List.length_append] at hfuel hrun
  rw [List.append_assoc] at hrun
  obtain ⟨fuel', hfuel', hrest⟩ := unescapeLoop_plain (plainBytes_char hplain) hfuel hrun
  rw [h fuel' _ _ hfuel' hrest, decode_utf16Char, Option.map_map]
  congr 1
  funext text
  simp

/-- A sequence that stands for one character. -/
theorem unescapes_sequence (front : List UInt8) (c : Char) {content : List UInt8} {units rest : List Nat}
    (hsequence : ∀ behind left, front.length + 1 ≤ left → escapeSequence (backslash :: (front ++ behind)) left
      = .ok (some (front.length + 1, String.utf8EncodeChar c)))
    (hdecode : decodeUtf16 units = (decodeUtf16 rest).map (c :: ·)) (h : Unescapes size behind content rest) :
    Unescapes size behind (backslash :: (front ++ content)) units := by
  intro fuel output result hfuel hrun
  have hlen : (backslash :: (front ++ content)).length = front.length + content.length + 1 := by simp
  rw [hlen] at hfuel hrun
  rw [List.cons_append, List.append_assoc] at hrun
  obtain ⟨fuel', hfuel', hrest⟩ := unescapeLoop_sequence (hsequence _ _ (by omega)) (by omega) hfuel hrun
  have hleft : front.length + content.length + 1 - (front.length + 1) = content.length := by omega
  rw [hleft] at hfuel' hrest
  rw [List.drop_succ_cons, List.drop_left] at hrest
  rw [h fuel' _ _ hfuel' hrest, hdecode, Option.map_map]
  congr 1
  funext text
  simp

/-- A sequence that stands for none. -/
theorem unescapes_none {content : List UInt8} {units : List Nat}
    (hsequence : escapeSequence (backslash :: (content ++ quote :: behind)) (content.length + 1) = .ok none)
    (hdecode : decodeUtf16 units = none) : Unescapes size behind (backslash :: content) units := by
  intro fuel output result hfuel hrun
  rw [List.length_cons] at hfuel hrun
  rw [unescapeLoop_none hsequence hfuel hrun, hdecode]
  rfl

theorem decode_high_alone {u v : Nat} {units : List Nat} (hhigh : HighSurrogate u) (hlow : ¬ LowSurrogate v) :
    decodeUtf16 (u :: v :: units) = none := by
  rw [decodeUtf16.eq_def]
  dsimp only
  rw [if_pos hhigh, if_neg hlow]

theorem decode_high_end {u : Nat} (hhigh : HighSurrogate u) : decodeUtf16 [u] = none := by
  rw [decodeUtf16.eq_def]
  dsimp only
  rw [if_pos hhigh]

theorem decode_low {u : Nat} {units : List Nat} (hlow : LowSurrogate u) : decodeUtf16 (u :: units) = none := by
  have hhigh : ¬ HighSurrogate u := fun h => not_low_of_high h hlow
  rw [decodeUtf16.eq_def]
  dsimp only
  rw [if_neg hhigh, if_pos hlow]

/-- The first unit of a character is no second half of a pair. -/
theorem utf16Char_head (c : Char) : ∃ v units, utf16Char c = v :: units ∧ ¬ LowSurrogate v := by
  have hle := toNat_le c
  unfold utf16Char
  split
  · exact ⟨_, _, rfl, (not_surrogate c).2⟩
  · refine ⟨_, _, rfl, ?_⟩
    unfold LowSurrogate
    omega

/-- The first half of a pair, by what stands behind it. -/
theorem unescapes_high {digits content : List UInt8} {u : Nat} {units : List Nat} (hdigits : HexUnit digits u)
    (hhigh : HighSurrogate u) (hcontent : Escaped content units)
    (h : ∀ content' units', content'.length < content.length → Escaped content' units' →
      Unescapes size behind content' units') :
    Unescapes size behind (backslash :: 117 :: (digits ++ content)) (u :: units) := by
  have hlen : (117 :: (digits ++ content)).length + 1 = content.length + 6 := by rw [hdigits.length_append]
  cases hcontent with
  | nil =>
      apply unescapes_none _ (decode_high_end hhigh)
      rw [hlen, List.cons_append, List.append_assoc]
      exact escapeSequence_alone hdigits (by omega) hhigh (.inl (by simp))
  | @plain c content units hplain hrest =>
      obtain ⟨v, rest, hunits, hlow⟩ := utf16Char_head c
      rw [hunits]
      apply unescapes_none _ (decode_high_alone hhigh hlow)
      rw [hlen, List.cons_append, List.append_assoc]
      apply escapeSequence_alone hdigits (by omega) hhigh
      -- a character that stands for itself starts with no backslash
      obtain ⟨b, bytes, hbytes⟩ := List.exists_cons_of_ne_nil (String.utf8EncodeChar_ne_nil (c := c))
      have hback : b ≠ backslash := (plainBytes_char hplain b (by rw [hbytes]; exact List.mem_cons_self)).2
      rw [hbytes]
      cases hcons : bytes ++ (content ++ quote :: behind) with
      | nil => simp at hcons
      | cons d rest' => exact .inr ⟨b, d, rest', by simp [hcons], .inl hback⟩
  | @escape e v content units hunit hrest =>
      obtain ⟨b, hb, hne, -, hlow, -⟩ := escapeSequence_unit hunit
      apply unescapes_none _ (decode_high_alone hhigh hlow)
      rw [hlen, List.cons_append, List.append_assoc]
      apply escapeSequence_alone hdigits (by omega) hhigh
      exact .inr ⟨backslash, b, content ++ quote :: behind, by simp [hb], .inr hne⟩
  | @hex digits' content v units hdigits' hrest =>
      have hlen' : (backslash :: 117 :: (digits' ++ content)).length = content.length + 6 := by
        rw [List.length_cons, hdigits'.length_append]
      by_cases hlow : LowSurrogate v
      · have hfront : (117 :: (digits ++ backslash :: 117 :: digits')).length + 1 = 12 := by
          simp [hdigits.length, hdigits'.length]
        have hpair := unescapes_sequence (117 :: (digits ++ backslash :: 117 :: digits'))
          (Char.ofNat (pairPoint u v))
          (fun behind left hleft => by
            rw [hfront] at hleft ⊢
            have happend : 117 :: (digits ++ backslash :: 117 :: digits') ++ behind
                = 117 :: (digits ++ backslash :: 117 :: (digits' ++ behind)) := by simp
            rw [happend]
            exact escapeSequence_pair hdigits hdigits' hleft hhigh hlow)
          (decode_pair hhigh hlow units) (h content units (by rw [hlen']; omega) hrest)
        simpa using hpair
      · apply unescapes_none _ (decode_high_alone hhigh hlow)
        rw [hlen, hlen', List.cons_append, List.append_assoc, List.cons_append, List.cons_append, List.append_assoc]
        exact escapeSequence_unpaired hdigits hdigits' (by omega) hhigh hlow

/-- **The second loop reads the units.** -/
theorem unescapes_escaped {content : List UInt8} {units : List Nat} (h : Escaped content units) :
    Unescapes size behind content units := by
  induction hn : content.length using Nat.strong_induction_on generalizing content units with
  | _ n ih =>
      subst hn
      cases h with
      | nil =>
          intro fuel output result _ hrun
          rw [List.length_nil, unescapeLoop] at hrun
          cases hrun
          simp [decodeUtf16]
      | @plain c content units hplain hrest =>
          have hpos : 0 < (String.utf8EncodeChar c).length := List.length_pos_iff.mpr String.utf8EncodeChar_ne_nil
          exact unescapes_plain hplain (ih _ (by rw [List.length_append]; omega) hrest rfl)
      | @escape e u content units hunit hrest =>
          obtain ⟨b, hb, -, hhigh, hlow, hsequence⟩ := escapeSequence_unit hunit
          rw [hb]
          exact unescapes_sequence [b] _ (fun behind left _ => hsequence behind left) (decode_single hhigh hlow units)
            (ih _ (by rw [List.length_cons, List.length_append]; omega) hrest rfl)
      | @hex digits content u units hdigits hrest =>
          have hlen : (backslash :: 117 :: (digits ++ content)).length = content.length + 6 := by
            rw [List.length_cons, hdigits.length_append]
          by_cases hhigh : HighSurrogate u
          · apply unescapes_high hdigits hhigh hrest
            intro content' units' hlt hescaped
            exact ih _ (by rw [hlen]; omega) hescaped rfl
          · by_cases hlow : LowSurrogate u
            · apply unescapes_none _ (decode_low hlow)
              have hleft : (117 :: (digits ++ content)).length + 1 = content.length + 6 := by
                rw [hdigits.length_append]
              rw [hleft, List.cons_append, List.append_assoc]
              exact escapeSequence_low hdigits (by omega) hlow
            · have hsix : (117 :: digits).length + 1 = 6 := by simp [hdigits.length]
              exact unescapes_sequence (117 :: digits) (Char.ofNat u)
                (fun behind left hleft => by
                  rw [hsix] at hleft ⊢
                  exact escapeSequence_single hdigits hleft hhigh hlow)
                (decode_single hhigh hlow units) (ih _ (by rw [hlen]; omega) hrest rfl)

end Loop

/-- **`parse_string` on a JSON string**: the text that its code units spell, or nothing where they spell none. -/
theorem parseString_chars {cs : List Char} {units : List Nat} {rest : List Char} (h : Chars cs units rest) :
    parseString (bufferOf (JsonText.quote :: cs))
      = .ok ((decodeUtf16 units).map fun text => (utf8 text ++ [0], bufferOf rest)) := by
  obtain ⟨content, hcontent, hescaped⟩ := escaped_of_chars h
  obtain ⟨skipped, hscan⟩ := scanString_escaped hescaped (bufferOf rest)
  have hbuffer : bufferOf (JsonText.quote :: cs) = quote :: (content ++ quote :: bufferOf rest) := by
    rw [bufferOf_cons, hcontent]
    rfl
  obtain ⟨result, hresult, -⟩ := parseString_safe _ (terminated_bufferOf (JsonText.quote :: cs))
  rw [hresult]
  rw [hbuffer] at hresult
  unfold parseString at hresult
  rw [readAt_zero, Loops.ok_bind, if_neg (not_not.mpr rfl), List.drop_one, List.tail_cons, hscan] at hresult
  obtain ⟨output, hloop, hresult⟩ := Loops.bind_eq_ok hresult
  have houtput := unescapes_escaped hescaped _ _ _ (Nat.le_refl _) hloop
  rw [houtput] at hresult
  cases hdecode : decodeUtf16 units with
  | none =>
      rw [hdecode] at hresult
      cases hresult
      rfl
  | some text =>
      rw [hdecode] at hresult
      obtain ⟨out, hout, hresult⟩ := Loops.bind_eq_ok hresult
      rw [eq_of_writeOutput hout] at hresult
      cases hresult
      simp

end CJson

end Hand2
