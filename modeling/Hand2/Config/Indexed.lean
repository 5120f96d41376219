import Hand2.Config.Parser
import Hand2.Library.Cursor
import Hand2.Library.Loops

/-!
# `Config.Indexed` — the parser, by positions

The parser again, as it runs: its position is an index into a content of a known size, its tokens point into that
content by index, and every byte it looks at is logged, also those it copies into a message. Forgetting the log, and
seeing an index as what follows it, gives the parser of `Config.Parser` (`lexToken_erase`, `parse_erase`), so calls
return there exactly when they return here (`returns_of_erase`).
-/

namespace Hand2.Indexed

open Lookahead (Ring)
open Loops (map_eq_ok)

/-- `Token`; the null pointer is the index zero, and comes with length zero. -/
structure Token where
  type : TokenType
  len : Int
  identifier : Nat

/-- The token of zeros. -/
def Token.zero : Token := ⟨.eof, 0, 0⟩

/-- `ConfigParser`. -/
abbrev ConfigParser := Ring Cursor Token

/-- `init_config_parser`. -/
def initConfigParser : ConfigParser := ⟨⟨0, []⟩, 0, 0, fun _ => .zero⟩

/-- What `parse_key_value_pair` gives out. -/
structure KeyValue where
  key : Nat
  keyLen : Int
  value : Nat
  valueLen : Int

section Functions

variable (content : List UInt8)

/-- `peek_char`. -/
def peekChar (at_ : Cursor) : UInt8 × Cursor := at_.peek content 0

/-- `eat_char`. -/
def eatChar (at_ : Cursor) : Cursor := at_.eat content

/-- The body of the loop of `eat_whitespaces`. -/
def whitespaceBody (inComment : Bool) (c : UInt8) : Option Bool :=
  if inComment then some (c ≠ newline)
  else if c = numberSign then some true
  else if isBlank c then some false
  else none

/-- `eat_whitespaces`. -/
def eatWhitespaces (at_ : Cursor) : Cursor := (at_.scan content 0 whitespaceBody false).2

/-- The loop over a string. -/
def stringLoop (c0 : UInt8) (at_ : Cursor) : Int × Cursor :=
  at_.scan content 0 (fun len c => if c = c0 then none else some (cInt (len + 1))) 0

/-- The loop over an identifier. -/
def identifierLoop (at_ : Cursor) : Int × Cursor :=
  at_.scan content 0 (fun len c => if isIdentifierChar c then some (cInt (len + 1)) else none) 0

/-- `lex_token`. -/
def lexToken (at_ : Cursor) : Token × Cursor :=
  let start := peekChar content (eatWhitespaces content at_)
  let c0 := start.1
  if c0 = 0 then (.zero, start.2)
  else if c0 = equalSign then (⟨.equal, 0, 0⟩, eatChar content start.2)
  else if c0 = doubleQuote ∨ c0 = singleQuote then
    let string := eatChar content start.2
    let scan := stringLoop content c0 string
    let stop := peekChar content scan.2
    (⟨.string, scan.1, string.at_⟩,
      -- the beginning of a string that is not closed is copied into the message
      if stop.1 = 0 then stop.2.copy string.at_ (sizeT (if scan.1 < 255 then scan.1 else 255))
      else eatChar content stop.2)
  else if isLetter c0 then
    let scan := identifierLoop content start.2
    (⟨.identifier, scan.1, start.2.at_⟩, scan.2)
  else (.zero, eatChar content start.2)

/-- `peek_token`. -/
def peekToken (parser : ConfigParser) (lookahead : Nat) : Token × ConfigParser :=
  Lookahead.peek (lexToken content) configLookaheads parser lookahead

/-- `eat_token`. -/
def eatToken (parser : ConfigParser) : ConfigParser := Lookahead.eat (lexToken content) configLookaheads parser

/-- What the message about a token that does not belong copies of it. -/
def reportToken (t : Token) (parser : ConfigParser) : ConfigParser :=
  { parser with source := parser.source.copy t.identifier (min (sizeT t.len) 255) }

/-- `parse_key_value_pair`, for at most `fuel` rounds of its loop. -/
def parseKeyValuePair : Nat → ConfigParser → Except Fault (Option KeyValue × ConfigParser)
  | 0,        _      => .error .outOfFuel
  | fuel + 1, parser =>
      let p0 := peekToken content parser 0
      let p1 := peekToken content p0.2 1
      let p2 := peekToken content p1.2 2
      if p0.1.type = .eof then .ok (none, p2.2)
      else if p0.1.type = .identifier ∧ p1.1.type = .equal ∧ p2.1.type = .string then
        .ok (some ⟨p0.1.identifier, p0.1.len, p2.1.identifier, p2.1.len⟩,
          eatToken content (eatToken content (eatToken content p2.2)))
      else
        let parser := if p0.1.type = .identifier then eatToken content p2.2 else p2.2
        let parser := if p0.1.type = .identifier ∧ p1.1.type = .equal then eatToken content parser else parser
        let t := peekToken content parser 0
        parseKeyValuePair fuel (eatToken content (reportToken t.1 t.2))

/-- A call returns, given enough rounds. -/
def Returns (parser : ConfigParser) (out : Option KeyValue × ConfigParser) : Prop :=
  ∃ n, ∀ fuel ≥ n, parseKeyValuePair content fuel parser = .ok out

/-- Successive calls return these pairs and then `0`, and leave the parser so. -/
inductive Parses : ConfigParser → List KeyValue → ConfigParser → Prop where
  | done {parser final : ConfigParser} (hcall : Returns content parser (none, final)) : Parses parser [] final
  | pair {parser parser' final : ConfigParser} {kv : KeyValue} {kvs : List KeyValue}
      (hcall : Returns content parser (some kv, parser')) (hrest : Parses parser' kvs final) :
      Parses parser (kv :: kvs) final

end Functions

/-! ## Without positions -/

section Erasure

variable (content : List UInt8)

/-- What a token points to is what follows its index. -/
def Token.erase (t : Token) : ConfigToken :=
  ⟨t.type, t.len, if t.type = .identifier ∨ t.type = .string then content.drop t.identifier else []⟩

@[simp] theorem Token.erase_type (t : Token) : (t.erase content).type = t.type := rfl

/-- The parser without positions. -/
def erase (parser : ConfigParser) : Hand2.ConfigParser :=
  parser.map (fun at_ => content.drop at_.at_) (Token.erase content)

def KeyValue.erase (kv : KeyValue) : Hand2.KeyValue :=
  ⟨content.drop kv.key, kv.keyLen, content.drop kv.value, kv.valueLen⟩

theorem erase_init : erase content initConfigParser = Hand2.initConfigParser content := rfl

theorem drop_eatWhitespaces (at_ : Cursor) :
    content.drop (eatWhitespaces content at_).at_ = Hand2.eatWhitespaces false (content.drop at_.at_) := by
  have hlist : ∀ (inComment : Bool) (bytes : List UInt8),
      (Cursor.scanList 0 whitespaceBody inComment bytes).2 = Hand2.eatWhitespaces inComment bytes := by
    intro inComment bytes
    induction bytes generalizing inComment with
    | nil => rfl
    | cons c bytes ih =>
        rw [Cursor.scanList, Hand2.eatWhitespaces, whitespaceBody]
        by_cases hnul : c = 0
        · rw [if_pos hnul, if_pos hnul]
        rw [if_neg hnul, if_neg hnul]
        cases inComment with
        | true => exact ih _
        | false =>
            simp only [Bool.false_eq_true, if_false]
            by_cases hcomment : c = numberSign
            · rw [if_pos hcomment, if_pos hcomment]
              exact ih _
            by_cases hblank : isBlank c = true
            · rw [if_neg hcomment, if_neg hcomment, if_pos hblank, if_pos hblank]
              exact ih _
            · rw [if_neg hcomment, if_neg hcomment, if_neg hblank, if_neg hblank]
  rw [← hlist]
  exact (Cursor.drop_scan false at_).2

theorem drop_stringLoop (c0 : UInt8) (at_ : Cursor) :
    ((stringLoop content c0 at_).1, content.drop (stringLoop content c0 at_).2.at_) =
      Hand2.stringLoop c0 (content.drop at_.at_) 0 := by
  have hlist : ∀ (len : Int) (bytes : List UInt8),
      Cursor.scanList 0 (fun len c => if c = c0 then none else some (cInt (len + 1))) len bytes =
        Hand2.stringLoop c0 bytes len := by
    intro len bytes
    induction bytes generalizing len with
    | nil => rfl
    | cons c bytes ih =>
        rw [Cursor.scanList, Hand2.stringLoop]
        by_cases hnul : c = 0
        · rw [if_pos hnul, if_pos (.inl hnul)]
        by_cases hquote : c = c0
        · rw [if_neg hnul, if_pos hquote, if_pos (.inr hquote)]
        · rw [if_neg hnul, if_neg hquote, if_neg (not_or.mpr ⟨hnul, hquote⟩)]
          exact ih _
  rw [← hlist]
  exact Prod.ext (Cursor.drop_scan 0 at_).1 (Cursor.drop_scan 0 at_).2

theorem drop_identifierLoop (at_ : Cursor) :
    ((identifierLoop content at_).1, content.drop (identifierLoop content at_).2.at_) =
      Hand2.identifierLoop (content.drop at_.at_) 0 := by
  have hlist : ∀ (len : Int) (bytes : List UInt8),
      Cursor.scanList 0 (fun len c => if isIdentifierChar c then some (cInt (len + 1)) else none) len bytes =
        Hand2.identifierLoop bytes len := by
    intro len bytes
    induction bytes generalizing len with
    | nil => rfl
    | cons c bytes ih =>
        rw [Cursor.scanList, Hand2.identifierLoop]
        by_cases hnul : c = 0
        · rw [if_pos hnul, if_neg (fun h => h.1 hnul)]
        by_cases hchar : isIdentifierChar c = true
        · rw [if_neg hnul, if_pos hchar, if_pos ⟨hnul, hchar⟩]
          exact ih _
        · rw [if_neg hnul, if_neg hchar, if_neg (fun h => hchar h.2)]
  rw [← hlist]
  exact Prod.ext (Cursor.drop_scan 0 at_).1 (Cursor.drop_scan 0 at_).2

/-- **The lexer by positions is the lexer.** -/
theorem lexToken_erase (at_ : Cursor) : Hand2.lexToken (content.drop at_.at_) =
    ((lexToken content at_).1.erase content, content.drop (lexToken content at_).2.at_) := by
  have hstart := drop_eatWhitespaces content at_
  unfold Hand2.lexToken lexToken peekChar
  rw [← hstart]
  -- the cursor behind the spacing, at the byte that has been peeked
  generalize eatWhitespaces content at_ = start
  cases hdrop : content.drop start.at_ with
  | nil =>
      have hpeek : (start.peek content 0).1 = 0 := by
        rw [Cursor.headD_drop, hdrop]
        rfl
      dsimp only
      rw [if_pos hpeek, Cursor.peek_at, hdrop]
      rfl
  | cons c0 rest =>
      have hpeek : (start.peek content 0).1 = c0 := Cursor.peek_of_cons hdrop
      have hat : content.drop (start.peek content 0).2.at_ = c0 :: rest := by rw [Cursor.peek_at, hdrop]
      have heat : content.drop (eatChar content (start.peek content 0).2).at_ = rest := Cursor.drop_eat_of_cons hat
      dsimp only
      rw [hpeek]
      by_cases hnul : c0 = 0
      · rw [if_pos hnul, if_pos hnul, hat]
        rfl
      rw [if_neg hnul, if_neg hnul]
      by_cases hequal : c0 = equalSign
      · rw [if_pos hequal, if_pos hequal, heat]
        rfl
      rw [if_neg hequal, if_neg hequal]
      by_cases hquote : c0 = doubleQuote ∨ c0 = singleQuote
      · rw [if_pos hquote, if_pos hquote]
        generalize eatChar content (start.peek content 0).2 = string at heat
        have hscan := drop_stringLoop content c0 string
        rw [heat] at hscan
        rw [← hscan]
        have hstop : Hand2.peekChar (content.drop (stringLoop content c0 string).2.at_) =
            ((stringLoop content c0 string).2.peek content 0).1 := (Cursor.headD_drop _).symm
        refine Prod.ext ?_ ?_
        · show ConfigToken.mk _ _ _ = ConfigToken.mk _ _ (content.drop string.at_)
          rw [heat]
        · dsimp only
          rw [hstop]
          split
          · exact (congrArg (fun i => content.drop i) (Cursor.peek_at content 0 _)).symm
          · rw [eatChar, Cursor.drop_eat, Cursor.peek_at]
      rw [if_neg hquote, if_neg hquote]
      by_cases hletter : isLetter c0 = true
      · rw [if_pos hletter, if_pos hletter]
        have hscan := drop_identifierLoop content (start.peek content 0).2
        rw [hat] at hscan
        rw [← hscan]
        refine Prod.ext ?_ rfl
        show ConfigToken.mk _ _ _ = ConfigToken.mk _ _ (content.drop _)
        rw [hat]
      · rw [if_neg hletter, if_neg hletter, heat]
        rfl

theorem peekToken_erase (parser : ConfigParser) (lookahead : Nat) :
    Hand2.peekToken (erase content parser) lookahead =
      ((peekToken content parser lookahead).1.erase content, erase content (peekToken content parser lookahead).2) :=
  Lookahead.peek_map (lexToken_erase content) configLookaheads parser lookahead

theorem eatToken_erase (parser : ConfigParser) :
    Hand2.eatToken (erase content parser) = erase content (eatToken content parser) :=
  Lookahead.eat_map (lexToken_erase content) configLookaheads parser

/-- A message makes no difference. -/
theorem eatToken_report (t : Token) (parser : ConfigParser) :
    erase content (eatToken content (reportToken t parser)) = erase content (eatToken content parser) := by
  rw [← eatToken_erase, ← eatToken_erase]
  rfl

/-- What a call gives out, without positions. -/
def eraseOut (out : Option KeyValue × ConfigParser) : Option Hand2.KeyValue × Hand2.ConfigParser :=
  (out.1.map (KeyValue.erase content), erase content out.2)

/-- **A call by positions is a call.** -/
theorem parse_erase (fuel : Nat) (parser : ConfigParser) :
    Hand2.parseKeyValuePair fuel (erase content parser) =
      (parseKeyValuePair content fuel parser).map (eraseOut content) := by
  induction fuel generalizing parser with
  | zero => rfl
  | succ fuel ih =>
      rw [Hand2.parseKeyValuePair, parseKeyValuePair]
      simp only [peekToken_erase, Token.erase_type]
      generalize (peekToken content parser 0).1 = t0
      generalize (peekToken content (peekToken content parser 0).2 1).1 = t1
      generalize (peekToken content (peekToken content (peekToken content parser 0).2 1).2 2).1 = t2
      generalize (peekToken content (peekToken content (peekToken content parser 0).2 1).2 2).2 = parser'
      by_cases heof : t0.type = .eof
      · rw [if_pos heof, if_pos heof]
        rfl
      rw [if_neg heof, if_neg heof]
      by_cases hpair : t0.type = .identifier ∧ t1.type = .equal ∧ t2.type = .string
      · rw [if_pos hpair, if_pos hpair, eatToken_erase, eatToken_erase, eatToken_erase]
        obtain ⟨h0, -, h2⟩ := hpair
        show Except.ok (some (Hand2.KeyValue.mk _ _ _ _), _) = Except.ok (some (Hand2.KeyValue.mk _ _ _ _), _)
        rw [Token.erase, Token.erase, if_pos (.inl h0), if_pos (.inr h2)]
      rw [if_neg hpair, if_neg hpair]
      simp only [eatToken_erase, ← apply_ite (erase content), peekToken_erase]
      rw [← eatToken_report]
      exact ih _

/-- More rounds than needed make no difference. -/
theorem parse_mono {fuel fuel' : Nat} (hle : fuel ≤ fuel') {parser : ConfigParser}
    {out : Option KeyValue × ConfigParser} (h : parseKeyValuePair content fuel parser = .ok out) :
    parseKeyValuePair content fuel' parser = .ok out := by
  induction fuel generalizing fuel' parser with
  | zero => cases h
  | succ fuel ih =>
      obtain ⟨more, rfl⟩ := Nat.exists_eq_add_of_le' (show 1 ≤ fuel' by omega)
      rw [parseKeyValuePair] at h ⊢
      dsimp only at h ⊢
      split at h
      · next heof => rwa [if_pos heof]
      next heof =>
      rw [if_neg heof]
      split at h
      · next hpair => rwa [if_pos hpair]
      next hpair =>
      rw [if_neg hpair]
      exact ih (by omega) h

variable {content} {parser : ConfigParser}

theorem returns_erase {out : Option KeyValue × ConfigParser} (h : Returns content parser out) :
    Hand2.Returns (erase content parser) (eraseOut content out) := by
  obtain ⟨n, hn⟩ := h
  refine ⟨n, ?_⟩
  intro fuel hfuel
  rw [parse_erase, hn fuel hfuel]
  rfl

/-- **A call returns by positions if it returns without.** -/
theorem returns_of_erase {out : Option Hand2.KeyValue × Hand2.ConfigParser}
    (h : Hand2.Returns (erase content parser) out) :
    ∃ outAt, Returns content parser outAt ∧ eraseOut content outAt = out := by
  obtain ⟨n, hn⟩ := h
  have hcall := hn n (Nat.le_refl n)
  rw [parse_erase] at hcall
  obtain ⟨outAt, hat, herase⟩ := map_eq_ok hcall
  exact ⟨outAt, ⟨n, fun fuel hfuel => parse_mono content hfuel hat⟩, herase⟩

/-- So do all calls. -/
theorem parses_of_erase {kvs : List Hand2.KeyValue} (h : Hand2.Parses (erase content parser) kvs) :
    ∃ kvsAt final, Parses content parser kvsAt final ∧ kvsAt.map (KeyValue.erase content) = kvs := by
  generalize hparser : erase content parser = start at h
  induction h generalizing parser with
  | done hcall =>
      subst hparser
      obtain ⟨⟨kv, final⟩, hat, herase⟩ := returns_of_erase hcall
      obtain rfl : kv = none := Option.map_eq_none_iff.mp (congrArg Prod.fst herase)
      exact ⟨[], final, .done hat, rfl⟩
  | pair hcall _ ih =>
      subst hparser
      obtain ⟨⟨kv, parser'⟩, hat, herase⟩ := returns_of_erase hcall
      obtain ⟨kv', rfl, hkv⟩ := Option.map_eq_some_iff.mp (congrArg Prod.fst herase)
      obtain ⟨kvsAt, final, hrest, hkvs⟩ := ih (congrArg Prod.snd herase)
      exact ⟨kv' :: kvsAt, final, .pair hat hrest, by rw [List.map_cons, hkv, hkvs]⟩

end Erasure

end Hand2.Indexed
