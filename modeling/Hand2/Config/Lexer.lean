import Hand2.Common

/-!
# `Config.Lexer` — the tokens of a config file

The file is bytes without a terminator, and the position of the parser is the part of it that is still to be read: a
pointer into the content is the bytes from there on. A NUL byte reads like the end. The slice of a token is a pointer
and a length of type `int`.
-/

namespace Hand2

/-- `Token_eof` and its siblings; a token of zeros is an end of file. -/
inductive TokenType where
  | eof
  | identifier
  | equal
  | string
  deriving DecidableEq

/-- `Token`; the null pointer is the empty list, and comes with length zero. -/
structure ConfigToken where
  type : TokenType
  len : Int
  identifier : List UInt8
  deriving DecidableEq

/-- The token of zeros. -/
def ConfigToken.zero : ConfigToken := ⟨.eof, 0, []⟩

/-- The bytes `=`, `#`, `"` and `'`. -/
def equalSign : UInt8 := 61
def numberSign : UInt8 := 35
def doubleQuote : UInt8 := 34
def singleQuote : UInt8 := 39

/-- `c == ' ' || c == '\t' || c == '\r' || c == '\n'`. -/
def isBlank (c : UInt8) : Bool := c == 32 || c == 9 || c == 13 || c == newline

/-- A letter. -/
def isLetter (c : UInt8) : Bool := (65 ≤ c && c ≤ 90) || (97 ≤ c && c ≤ 122)

/-- A byte of an identifier behind its first. -/
def isIdentifierChar (c : UInt8) : Bool := isLetter c || isDigit c || c == 95 || c == 46

/-- `peek_char`. -/
def peekChar (content : List UInt8) : UInt8 := content.headD 0

/-- `eat_whitespaces`, in a comment or not. -/
def eatWhitespaces : Bool → List UInt8 → List UInt8
  | _,         []        => []
  | inComment, c :: rest =>
      if c = 0 then c :: rest
      else if inComment then eatWhitespaces (c ≠ newline) rest
      else if c = numberSign then eatWhitespaces true rest
      else if isBlank c then eatWhitespaces false rest
      else c :: rest

/-- The loop over a string: its length and where it stops, at the quote `c0`, a NUL or the end. -/
def stringLoop (c0 : UInt8) : List UInt8 → Int → Int × List UInt8
  | [],        len => (len, [])
  | c :: rest, len => if c = 0 ∨ c = c0 then (len, c :: rest) else stringLoop c0 rest (cInt (len + 1))

/-- The loop over an identifier. -/
def identifierLoop : List UInt8 → Int → Int × List UInt8
  | [],        len => (len, [])
  | c :: rest, len =>
      if c ≠ 0 ∧ isIdentifierChar c then identifierLoop rest (cInt (len + 1)) else (len, c :: rest)

/-- `lex_token`: the token, and what is left to be read. A byte that begins no token is eaten and gives the token of
    zeros. -/
def lexToken (content : List UInt8) : ConfigToken × List UInt8 :=
  match eatWhitespaces false content with
  | [] => (.zero, [])
  | c0 :: rest =>
      if c0 = 0 then (.zero, c0 :: rest)
      else if c0 = equalSign then (⟨.equal, 0, []⟩, rest)
      else if c0 = doubleQuote ∨ c0 = singleQuote then
        let scan := stringLoop c0 rest 0
        -- a string that is not closed is reported, and is a token all the same
        (⟨.string, scan.1, rest⟩, if peekChar scan.2 = 0 then scan.2 else scan.2.tail)
      else if isLetter c0 then
        -- the loop starts at the letter itself
        let scan := identifierLoop (c0 :: rest) 0
        (⟨.identifier, scan.1, c0 :: rest⟩, scan.2)
      else (.zero, rest)

/-! ## The bytes of a key -/

theorem isLetter_ne {c : UInt8} (h : isLetter c) :
    c ≠ 0 ∧ c ≠ numberSign ∧ ¬ isBlank c ∧ c ≠ equalSign ∧ ¬ (c = doubleQuote ∨ c = singleQuote) := by
  refine ⟨?_, ?_, ?_, ?_, ?_⟩
  · rintro rfl
    exact absurd h (by decide)
  · rintro rfl
    exact absurd h (by decide)
  · intro hblank
    simp only [isBlank, newline, Bool.or_eq_true, beq_iff_eq] at hblank
    rcases hblank with ((rfl | rfl) | rfl) | rfl
    all_goals exact absurd h (by decide)
  · rintro rfl
    exact absurd h (by decide)
  · rintro (rfl | rfl)
    all_goals exact absurd h (by decide)

theorem isIdentifierChar_ne_zero {c : UInt8} (h : isIdentifierChar c) : c ≠ 0 := by
  rintro rfl
  exact absurd h (by decide)

/-! ## The loops -/

theorem length_eatWhitespaces_le (inComment : Bool) (content : List UInt8) :
    (eatWhitespaces inComment content).length ≤ content.length := by
  fun_induction eatWhitespaces inComment content with
  | case1 => exact Nat.le_refl _
  | case2 => exact Nat.le_refl _
  | case3 _ _ _ ih => exact Nat.le_succ_of_le ih
  | case4 _ _ _ _ ih => exact Nat.le_succ_of_le ih
  | case5 _ _ _ _ _ _ _ ih => exact Nat.le_succ_of_le ih
  | case6 => exact Nat.le_refl _

/-- The bytes that the loop over a string passes. -/
def isInString (c0 c : UInt8) : Bool := c ≠ 0 ∧ c ≠ c0

/-- The bytes that the loop over an identifier passes. -/
def isInIdentifier (c : UInt8) : Bool := c ≠ 0 ∧ isIdentifierChar c

theorem isInIdentifier_of_isLetter {c : UInt8} (h : isLetter c) : isInIdentifier c := by
  obtain ⟨hnul, -⟩ := isLetter_ne h
  simp [isInIdentifier, isIdentifierChar, h, hnul]

theorem cInt_cInt (x : Int) : cInt (cInt x) = cInt x := by
  simpa using cInt_add_cInt x 0

/-- The loop over a string counts the bytes it passes. -/
theorem stringLoop_eq (c0 : UInt8) (content : List UInt8) {len : Int} (hlen : cInt len = len) :
    stringLoop c0 content len =
      (cInt (len + (content.takeWhile (isInString c0)).length), content.dropWhile (isInString c0)) := by
  induction content generalizing len with
  | nil => simp [stringLoop, hlen]
  | cons c content ih =>
      by_cases hc : c = 0 ∨ c = c0
      · have hstop : isInString c0 c = false := by
          rcases hc with rfl | rfl <;> simp [isInString]
        rw [stringLoop, if_pos hc, List.takeWhile_cons_of_neg (by simp [hstop]),
          List.dropWhile_cons_of_neg (by simp [hstop])]
        simp [hlen]
      · have hpass : isInString c0 c = true := by simpa [isInString, not_or] using hc
        rw [stringLoop, if_neg hc, ih (cInt_cInt _), List.takeWhile_cons_of_pos hpass,
          List.dropWhile_cons_of_pos hpass, cInt_add_cInt, List.length_cons]
        congr 2
        push_cast
        omega

/-- And so does the loop over an identifier. -/
theorem identifierLoop_eq (content : List UInt8) {len : Int} (hlen : cInt len = len) :
    identifierLoop content len =
      (cInt (len + (content.takeWhile isInIdentifier).length), content.dropWhile isInIdentifier) := by
  induction content generalizing len with
  | nil => simp [identifierLoop, hlen]
  | cons c content ih =>
      by_cases hc : c ≠ 0 ∧ isIdentifierChar c
      · have hpass : isInIdentifier c = true := by simpa [isInIdentifier] using hc
        rw [identifierLoop, if_pos hc, ih (cInt_cInt _), List.takeWhile_cons_of_pos hpass,
          List.dropWhile_cons_of_pos hpass, cInt_add_cInt, List.length_cons]
        congr 2
        push_cast
        omega
      · have hstop : ¬ isInIdentifier c = true := by simpa [isInIdentifier] using hc
        rw [identifierLoop, if_neg hc, List.takeWhile_cons_of_neg hstop, List.dropWhile_cons_of_neg hstop]
        simp [hlen]

/-- A string up to its quote. -/
theorem stringLoop_append {c0 : UInt8} {value : List UInt8} (rest : List UInt8) {len : Int} (hlen : cInt len = len)
    (hnul : (0 : UInt8) ∉ value) (hquote : c0 ∉ value) :
    stringLoop c0 (value ++ c0 :: rest) len = (cInt (len + value.length), c0 :: rest) := by
  have hpass : ∀ c ∈ value, isInString c0 c = true := by
    intro c hc
    have hc0 : c ≠ 0 := fun h => hnul (h ▸ hc)
    have hcq : c ≠ c0 := fun h => hquote (h ▸ hc)
    simp [isInString, hc0, hcq]
  have hstop : ¬ isInString c0 c0 = true := by simp [isInString]
  rw [stringLoop_eq c0 _ hlen, List.takeWhile_append_of_pos hpass, List.dropWhile_append_of_pos hpass,
    List.takeWhile_cons_of_neg hstop, List.dropWhile_cons_of_neg hstop, List.append_nil]

/-- An identifier up to a byte that does not go on with it. -/
theorem identifierLoop_append {key : List UInt8} (rest : List UInt8) {len : Int} (hlen : cInt len = len)
    (hkey : ∀ c ∈ key, c ≠ 0 ∧ isIdentifierChar c) (hrest : ¬ isIdentifierChar (peekChar rest)) :
    identifierLoop (key ++ rest) len = (cInt (len + key.length), rest) := by
  have hpass : ∀ c ∈ key, isInIdentifier c = true := by
    intro c hc
    simpa [isInIdentifier] using hkey c hc
  rw [identifierLoop_eq _ hlen, List.takeWhile_append_of_pos hpass, List.dropWhile_append_of_pos hpass]
  cases rest with
  | nil => simp
  | cons c rest =>
      have hstop : ¬ isInIdentifier c = true := fun h => hrest (of_decide_eq_true h).2
      rw [List.takeWhile_cons_of_neg hstop, List.dropWhile_cons_of_neg hstop, List.append_nil]

/-! ## One token -/

/-- What a call of `lex_token` can do. -/
inductive Lexes (content : List UInt8) : ConfigToken → List UInt8 → Prop where
  /-- The end, or a NUL. -/
  | eof (hend : peekChar (eatWhitespaces false content) = 0) : Lexes content .zero (eatWhitespaces false content)
  | equal {rest : List UInt8} (hstart : eatWhitespaces false content = equalSign :: rest) :
      Lexes content ⟨.equal, 0, []⟩ rest
  | string {c0 : UInt8} {rest : List UInt8} (hstart : eatWhitespaces false content = c0 :: rest)
      (hquote : c0 = doubleQuote ∨ c0 = singleQuote) {after : List UInt8}
      (hafter : after <:+ rest.dropWhile (isInString c0)) :
      Lexes content ⟨.string, cInt (rest.takeWhile (isInString c0)).length, rest⟩ after
  | identifier {c0 : UInt8} {rest : List UInt8} (hstart : eatWhitespaces false content = c0 :: rest)
      (hletter : isLetter c0) :
      Lexes content ⟨.identifier, cInt ((c0 :: rest).takeWhile isInIdentifier).length, c0 :: rest⟩
        ((c0 :: rest).dropWhile isInIdentifier)
  /-- A byte that begins no token. -/
  | rejected {c0 : UInt8} {rest : List UInt8} (hstart : eatWhitespaces false content = c0 :: rest) :
      Lexes content .zero rest

theorem lexToken_lexes (content : List UInt8) : Lexes content (lexToken content).1 (lexToken content).2 := by
  have hzero : cInt 0 = 0 := by decide
  unfold lexToken
  cases hstart : eatWhitespaces false content with
  | nil =>
      have heof : Lexes content .zero (eatWhitespaces false content) := .eof (by rw [hstart]; rfl)
      rwa [hstart] at heof
  | cons c0 rest =>
      dsimp only
      by_cases hnul : c0 = 0
      · have heof : Lexes content .zero (eatWhitespaces false content) := .eof (by rw [hstart]; exact hnul)
        rw [if_pos hnul]
        rwa [hstart] at heof
      rw [if_neg hnul]
      by_cases hequal : c0 = equalSign
      · rw [if_pos hequal]
        exact .equal (hequal ▸ hstart)
      rw [if_neg hequal]
      by_cases hquote : c0 = doubleQuote ∨ c0 = singleQuote
      · rw [if_pos hquote, stringLoop_eq c0 rest hzero, Int.zero_add]
        dsimp only
        apply Lexes.string hstart hquote
        split
        · exact List.suffix_refl _
        · exact List.tail_suffix _
      rw [if_neg hquote]
      by_cases hletter : isLetter c0 = true
      · rw [if_pos hletter, identifierLoop_eq _ hzero, Int.zero_add]
        dsimp only
        exact .identifier hstart hletter
      · rw [if_neg hletter]
        exact .rejected hstart

/-- The end is lexed again and again. -/
theorem lexToken_end {content : List UInt8} (h : peekChar content = 0) : lexToken content = (.zero, content) := by
  cases content with
  | nil => rfl
  | cons c content =>
      obtain rfl : c = 0 := h
      simp [lexToken, eatWhitespaces]

/-- Behind spacing there is not more than before it. -/
theorem length_start_le {content rest : List UInt8} {c0 : UInt8} (h : eatWhitespaces false content = c0 :: rest) :
    rest.length + 1 ≤ content.length := by
  have hle := length_eatWhitespaces_le false content
  rwa [h, List.length_cons] at hle

/-- The bytes a loop passes, and those behind them. -/
theorem length_takeWhile_add (p : UInt8 → Bool) (bytes : List UInt8) :
    (bytes.takeWhile p).length + (bytes.dropWhile p).length = bytes.length := by
  rw [← List.length_append, List.takeWhile_append_dropWhile]

/-- A token either leaves less to be read, or is the end of the file from then on. -/
theorem Lexes.less_or_end {content rest : List UInt8} {token : ConfigToken} (h : Lexes content token rest) :
    rest.length < content.length ∨ (token = .zero ∧ lexToken rest = (.zero, rest)) := by
  cases h with
  | eof hend => exact .inr ⟨rfl, lexToken_end hend⟩
  | equal hstart => exact .inl (length_start_le hstart)
  | rejected hstart => exact .inl (length_start_le hstart)
  | @string c0 rest hstart _ after hafter =>
      have hlen := length_start_le hstart
      have hsplit := length_takeWhile_add (isInString c0) rest
      have hle := hafter.length_le
      exact .inl (by omega)
  | @identifier c0 rest hstart hletter =>
      have hlen := length_start_le hstart
      -- the letter itself is passed
      have hpass := isInIdentifier_of_isLetter hletter
      have hsplit := length_takeWhile_add isInIdentifier (c0 :: rest)
      rw [List.takeWhile_cons_of_pos hpass, List.length_cons, List.length_cons] at hsplit
      exact .inl (by omega)

end Hand2
