import Hand2.Config.Parser

/-!
# `Config.Spans` — how many bytes a token covers

The length of a token is an `int` that is counted up byte by byte. It is the number of bytes the token covers, as an
`int` (`Lexes.len_eq`), and these bytes lie between those before the token and the rest (`Lexes.between`).
-/

namespace Hand2

/-- How many bytes the next token covers: an identifier, or what is between the quotes of a string. -/
def tokenSpan (content : List UInt8) : Nat :=
  match eatWhitespaces false content with
  | []         => 0
  | c0 :: rest =>
      if c0 = doubleQuote ∨ c0 = singleQuote then (rest.takeWhile (isInString c0)).length
      else if isLetter c0 then ((c0 :: rest).takeWhile isInIdentifier).length
      else 0

/-- No identifier and no string of a content is too long for an `int`. -/
def TokensFit (content : List UInt8) : Prop := ∀ i, (tokenSpan (restAfter content i) : Int) ≤ intMax

theorem TokensFit.rest {content : List UInt8} (h : TokensFit content) (k : Nat) :
    TokensFit (restAfter content k) := by
  intro i
  rw [restAfter_add]
  exact h (k + i)

/-- A letter and identifier bytes behind it: `[A-Za-z][A-Za-z0-9_.]*`. -/
def IsKey (bytes : List UInt8) : Prop :=
  ∃ letter letters, bytes = letter :: letters ∧ isLetter letter ∧ ∀ c ∈ letters, isIdentifierChar c

section Slices

variable {content rest : List UInt8} {token : ConfigToken}

theorem tokenSpan_string {c0 : UInt8} {rest : List UInt8} (hstart : eatWhitespaces false content = c0 :: rest)
    (hquote : c0 = doubleQuote ∨ c0 = singleQuote) : tokenSpan content = (rest.takeWhile (isInString c0)).length := by
  rw [tokenSpan, hstart]
  dsimp only
  rw [if_pos hquote]

theorem tokenSpan_identifier {c0 : UInt8} {rest : List UInt8} (hstart : eatWhitespaces false content = c0 :: rest)
    (hletter : isLetter c0) : tokenSpan content = ((c0 :: rest).takeWhile isInIdentifier).length := by
  obtain ⟨-, -, -, -, hquote⟩ := isLetter_ne hletter
  rw [tokenSpan, hstart]
  dsimp only
  rw [if_neg hquote, if_pos hletter]

theorem tokenSpan_le (content : List UInt8) : tokenSpan content ≤ content.length := by
  unfold tokenSpan
  split
  · exact Nat.zero_le _
  · next c0 rest hstart =>
      have hlen := length_start_le hstart
      have hstring := length_takeWhile_add (isInString c0) rest
      have hidentifier := length_takeWhile_add isInIdentifier (c0 :: rest)
      rw [List.length_cons] at hidentifier
      split
      · omega
      split
      · omega
      · exact Nat.zero_le _

/-- The length of a token is its span, as an `int`. -/
theorem Lexes.len_eq (h : Lexes content token rest) (htype : token.type = .identifier ∨ token.type = .string) :
    token.len = cInt (tokenSpan content) := by
  cases h with
  | eof => exact absurd htype (by decide)
  | equal => exact absurd htype (by decide)
  | rejected => exact absurd htype (by decide)
  | string hstart hquote => rw [tokenSpan_string hstart hquote]
  | identifier hstart hletter => rw [tokenSpan_identifier hstart hletter]

/-- **A token lies between the bytes before it and the rest.** -/
theorem Lexes.between (h : Lexes content token rest) (htype : token.type = .identifier ∨ token.type = .string) :
    token.identifier.length ≤ content.length ∧ rest.length + tokenSpan content ≤ token.identifier.length := by
  cases h with
  | eof => exact absurd htype (by decide)
  | equal => exact absurd htype (by decide)
  | rejected => exact absurd htype (by decide)
  | @string c0 rest hstart hquote after hafter =>
      have hlen := length_start_le hstart
      have hsplit := length_takeWhile_add (isInString c0) rest
      have hle := hafter.length_le
      rw [tokenSpan_string hstart hquote]
      show rest.length ≤ content.length ∧ _ ≤ rest.length
      omega
  | @identifier c0 rest hstart hletter =>
      have hlen := length_start_le hstart
      have hsplit := length_takeWhile_add isInIdentifier (c0 :: rest)
      rw [tokenSpan_identifier hstart hletter]
      show (c0 :: rest).length ≤ content.length ∧ _ ≤ (c0 :: rest).length
      rw [List.length_cons] at hsplit ⊢
      omega

/-- The bytes of an identifier are those of a key. -/
theorem Lexes.isKey (h : Lexes content token rest) (htype : token.type = .identifier) :
    IsKey (token.identifier.take (tokenSpan content)) := by
  cases h with
  | eof => cases htype
  | equal => cases htype
  | rejected => cases htype
  | string => cases htype
  | @identifier c0 rest hstart hletter =>
      have hpass : isInIdentifier c0 = true := isInIdentifier_of_isLetter hletter
      rw [tokenSpan_identifier hstart hletter]
      refine ⟨c0, rest.takeWhile isInIdentifier, ?_, hletter, ?_⟩
      · rw [List.takeWhile_cons_of_pos hpass, List.length_cons, List.take_succ_cons]
        congr 1
        exact List.prefix_iff_eq_take.mp (List.takeWhile_prefix _) |>.symm
      · intro c hc
        have hin := List.mem_takeWhile_imp hc
        exact (of_decide_eq_true hin).2

/-- Lexing leaves no more than there was. -/
theorem Lexes.length_le (h : Lexes content token rest) : rest.length ≤ content.length := by
  cases h with
  | eof => exact length_eatWhitespaces_le false content
  | equal hstart => exact Nat.le_of_succ_le (length_start_le hstart)
  | rejected hstart => exact Nat.le_of_succ_le (length_start_le hstart)
  | @string c0 rest hstart _ after hafter =>
      have hlen := length_start_le hstart
      have hsplit := length_takeWhile_add (isInString c0) rest
      have hle' := hafter.length_le
      omega
  | @identifier c0 rest hstart hletter =>
      have hlen := length_start_le hstart
      have hsplit := length_takeWhile_add isInIdentifier (c0 :: rest)
      rw [List.length_cons] at hsplit
      omega

theorem length_restAfter_le (content : List UInt8) (k : Nat) : (restAfter content k).length ≤ content.length := by
  induction k generalizing content with
  | zero => exact Nat.le_refl _
  | succ k ih => exact (ih _).trans (lexToken_lexes content).length_le

/-- The tokens of a content that is not too long itself. -/
theorem tokensFit_of_length (h : (content.length : Int) ≤ intMax) : TokensFit content := by
  intro i
  have hspan := tokenSpan_le (restAfter content i)
  have hrest := length_restAfter_le content i
  omega

end Slices

end Hand2
