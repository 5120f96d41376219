import Hand2.Config.Lexer
import Hand2.Library.Lookahead

/-!
# `Config.Parser` — key-value pairs

`peek_token` and `eat_token` are the operations of a four-slot ring over `lex_token`, so `parse_key_value_pair` reads
the sequence of tokens `tokens content` and is stated against it. A pair is an identifier, an equal sign and a string;
anything else is eaten in part and passed over. The sequence is finite but for its end, which is why a call returns,
and why the calls come to an end (`parses_total`).
-/

namespace Hand2

open Lookahead (Ring Streams)

/-- `ConfigParser`. -/
abbrev ConfigParser := Ring (List UInt8) ConfigToken

/-- `CONFIG_LOOKAHEAD_MASK`, plus one: to mask an index is to take it modulo this. -/
def configLookaheads : Nat := 4

/-- `init_config_parser`. -/
def initConfigParser (content : List UInt8) : ConfigParser := ⟨content, 0, 0, fun _ => .zero⟩

/-- `peek_token`. -/
def peekToken (parser : ConfigParser) (lookahead : Nat) : ConfigToken × ConfigParser :=
  Lookahead.peek lexToken configLookaheads parser lookahead

/-- `eat_token`. -/
def eatToken (parser : ConfigParser) : ConfigParser := Lookahead.eat lexToken configLookaheads parser

/-- What `parse_key_value_pair` gives out. -/
structure KeyValue where
  key : List UInt8
  keyLen : Int
  value : List UInt8
  valueLen : Int
  deriving DecidableEq

/-- `parse_key_value_pair`, for at most `fuel` rounds of its loop; no pair is `0`. -/
def parseKeyValuePair : Nat → ConfigParser → Except Fault (Option KeyValue × ConfigParser)
  | 0,        _      => .error .outOfFuel
  | fuel + 1, parser =>
      let p0 := peekToken parser 0
      let p1 := peekToken p0.2 1
      let p2 := peekToken p1.2 2
      if p0.1.type = .eof then .ok (none, p2.2)
      else if p0.1.type = .identifier ∧ p1.1.type = .equal ∧ p2.1.type = .string then
        .ok (some ⟨p0.1.identifier, p0.1.len, p2.1.identifier, p2.1.len⟩, eatToken (eatToken (eatToken p2.2)))
      else
        -- what began like a pair is passed over up to the token that does not belong, and that one as well
        let parser := if p0.1.type = .identifier then eatToken p2.2 else p2.2
        let parser := if p0.1.type = .identifier ∧ p1.1.type = .equal then eatToken parser else parser
        parseKeyValuePair fuel (eatToken (peekToken parser 0).2)

/-- A call returns, given enough rounds. -/
def Returns (parser : ConfigParser) (out : Option KeyValue × ConfigParser) : Prop :=
  ∃ n, ∀ fuel ≥ n, parseKeyValuePair fuel parser = .ok out

/-- Successive calls return these pairs, and then `0`. -/
inductive Parses : ConfigParser → List KeyValue → Prop where
  | done {parser parser' : ConfigParser} (hcall : Returns parser (none, parser')) : Parses parser []
  | pair {parser parser' : ConfigParser} {kv : KeyValue} {kvs : List KeyValue}
      (hcall : Returns parser (some kv, parser')) (hrest : Parses parser' kvs) : Parses parser (kv :: kvs)

/-! ## The tokens -/

/-- The tokens of a content, as a sequence. -/
def tokens (content : List UInt8) : Nat → ConfigToken := Lookahead.items lexToken content

/-- The parser has these tokens before it. -/
def Sees (parser : ConfigParser) (seq : Nat → ConfigToken) : Prop := Streams lexToken configLookaheads parser seq

theorem sees_init (content : List UInt8) : Sees (initConfigParser content) (tokens content) :=
  Lookahead.streams_start lexToken (by decide) content _

section Steps

variable {parser : ConfigParser} {seq : Nat → ConfigToken}

theorem peekToken_sees (h : Sees parser seq) {lookahead : Nat} (hlook : lookahead ≤ 2) :
    (peekToken parser lookahead).1 = seq lookahead ∧ Sees (peekToken parser lookahead).2 seq :=
  Lookahead.peek_streams h (by unfold configLookaheads; omega)

theorem eatToken_sees (h : Sees parser seq) : Sees (eatToken parser) (fun i => seq (i + 1)) :=
  Lookahead.eat_streams h (by decide)

/-- The three peeks of a round. -/
theorem peeks_see (h : Sees parser seq) :
    (peekToken parser 0).1 = seq 0 ∧ (peekToken (peekToken parser 0).2 1).1 = seq 1 ∧
      (peekToken (peekToken (peekToken parser 0).2 1).2 2).1 = seq 2 ∧
      Sees (peekToken (peekToken (peekToken parser 0).2 1).2 2).2 seq := by
  obtain ⟨h0, hs0⟩ := peekToken_sees h (by decide : 0 ≤ 2)
  obtain ⟨h1, hs1⟩ := peekToken_sees hs0 (by decide : 1 ≤ 2)
  obtain ⟨h2, hs2⟩ := peekToken_sees hs1 (by decide : 2 ≤ 2)
  exact ⟨h0, h1, h2, hs2⟩

/-- A call at the end. -/
theorem returns_end (h : Sees parser seq) (heof : (seq 0).type = .eof) :
    ∃ parser', Returns parser (none, parser') ∧ Sees parser' seq := by
  obtain ⟨h0, -, -, hs⟩ := peeks_see h
  refine ⟨(peekToken (peekToken (peekToken parser 0).2 1).2 2).2, ⟨1, ?_⟩, hs⟩
  intro fuel hfuel
  obtain ⟨n, rfl⟩ := Nat.exists_eq_add_of_le' hfuel
  rw [parseKeyValuePair]
  dsimp only
  rw [if_pos (by rw [h0]; exact heof)]

theorem returns_eof (h : Sees parser seq) (heof : (seq 0).type = .eof) : ∃ parser', Returns parser (none, parser') := by
  obtain ⟨parser', hcall, -⟩ := returns_end h heof
  exact ⟨parser', hcall⟩

/-- A call at a pair. -/
theorem returns_pair (h : Sees parser seq) (h0 : (seq 0).type = .identifier) (h1 : (seq 1).type = .equal)
    (h2 : (seq 2).type = .string) :
    ∃ parser', Returns parser (some ⟨(seq 0).identifier, (seq 0).len, (seq 2).identifier, (seq 2).len⟩, parser') ∧
      Sees parser' (fun i => seq (i + 3)) := by
  obtain ⟨hp0, hp1, hp2, hs⟩ := peeks_see h
  refine ⟨_, ⟨1, ?_⟩, eatToken_sees (eatToken_sees (eatToken_sees hs))⟩
  intro fuel hfuel
  obtain ⟨n, rfl⟩ := Nat.exists_eq_add_of_le' hfuel
  rw [parseKeyValuePair]
  dsimp only
  rw [hp0, hp1, hp2, if_neg (by rw [h0]; decide), if_pos ⟨h0, h1, h2⟩]

/-- A round that finds neither goes on with at least one token less. -/
theorem parse_round (h : Sees parser seq) (hneof : (seq 0).type ≠ .eof)
    (hnpair : ¬ ((seq 0).type = .identifier ∧ (seq 1).type = .equal ∧ (seq 2).type = .string)) :
    ∃ parser' k, 1 ≤ k ∧ Sees parser' (fun i => seq (i + k)) ∧
      ∀ fuel, parseKeyValuePair (fuel + 1) parser = parseKeyValuePair fuel parser' := by
  obtain ⟨hp0, hp1, hp2, hs⟩ := peeks_see h
  have hround : ∀ fuel, parseKeyValuePair (fuel + 1) parser = parseKeyValuePair fuel (eatToken (peekToken
      (if (seq 0).type = .identifier ∧ (seq 1).type = .equal then
        eatToken (if (seq 0).type = .identifier then eatToken (peekToken (peekToken (peekToken parser 0).2 1).2 2).2
          else (peekToken (peekToken (peekToken parser 0).2 1).2 2).2)
      else if (seq 0).type = .identifier then eatToken (peekToken (peekToken (peekToken parser 0).2 1).2 2).2
        else (peekToken (peekToken (peekToken parser 0).2 1).2 2).2) 0).2) := by
    intro fuel
    rw [parseKeyValuePair]
    dsimp only
    rw [hp0, hp1, hp2, if_neg hneof, if_neg hnpair]
  by_cases hident : (seq 0).type = .identifier
  · have hs1 := eatToken_sees hs
    by_cases hequal : (seq 1).type = .equal
    -- `key =` and no string: three tokens are eaten
    · simp only [if_pos hident, if_pos (And.intro hident hequal)] at hround
      exact ⟨_, 3, by decide, eatToken_sees (peekToken_sees (eatToken_sees hs1) (by decide : 0 ≤ 2)).2, hround⟩
    -- a key without an equal sign: two
    · simp only [if_pos hident, if_neg (fun h => hequal h.2 : ¬ ((seq 0).type = .identifier ∧ _))] at hround
      exact ⟨_, 2, by decide, eatToken_sees (peekToken_sees hs1 (by decide : 0 ≤ 2)).2, hround⟩
  -- no key: one
  · simp only [if_neg hident, if_neg (fun h => hident h.1 : ¬ ((seq 0).type = .identifier ∧ _))] at hround
    exact ⟨_, 1, by decide, eatToken_sees (peekToken_sees hs (by decide : 0 ≤ 2)).2, hround⟩

/-- A round that goes on returns what the rest returns. -/
theorem returns_of_round {parser' : ConfigParser} {out : Option KeyValue × ConfigParser}
    (hround : ∀ fuel, parseKeyValuePair (fuel + 1) parser = parseKeyValuePair fuel parser')
    (h : Returns parser' out) : Returns parser out := by
  obtain ⟨n, hn⟩ := h
  refine ⟨n + 1, ?_⟩
  intro fuel hfuel
  obtain ⟨m, rfl⟩ := Nat.exists_eq_add_of_le' hfuel
  rw [← Nat.add_assoc, hround]
  exact hn _ (by omega)

end Steps

/-! ## Every content is read to its end -/

/-- From some token on there is only the end of the file. -/
theorem tokens_end (content : List UInt8) : ∃ n, ∀ i ≥ n, (tokens content i).type = .eof := by
  induction hlen : content.length using Nat.strong_induction_on generalizing content with
  | _ len ih =>
      subst hlen
      rcases (lexToken_lexes content).less_or_end with hless | ⟨hzero, hfix⟩
      · obtain ⟨n, hn⟩ := ih _ hless (lexToken content).2 rfl
        refine ⟨n + 1, ?_⟩
        intro i hi
        obtain ⟨j, rfl⟩ := Nat.exists_eq_add_of_le' (show 1 ≤ i by omega)
        exact hn j (by omega)
      · refine ⟨0, ?_⟩
        intro i _
        cases i with
        | zero =>
            show (lexToken content).1.type = .eof
            rw [hzero]
            rfl
        | succ i =>
            show (Lookahead.items lexToken (lexToken content).2 i).type = .eof
            -- at the end nothing is eaten, so the next token is lexed where this one was
            generalize (lexToken content).2 = rest at hfix
            induction i with
            | zero => rw [Lookahead.items, hfix]; rfl
            | succ i ih' => rw [Lookahead.items, hfix]; exact ih' (Nat.zero_le _)

/-- What is left of a content behind some of its tokens. -/
def restAfter : List UInt8 → Nat → List UInt8
  | content, 0     => content
  | content, k + 1 => restAfter (lexToken content).2 k

/-- The tokens of the rest. -/
theorem tokens_restAfter (content : List UInt8) (k : Nat) :
    tokens (restAfter content k) = fun i => tokens content (i + k) := by
  induction k generalizing content with
  | zero => rfl
  | succ k ih =>
      rw [restAfter, ih]
      rfl

theorem restAfter_add (content : List UInt8) (j k : Nat) :
    restAfter (restAfter content j) k = restAfter content (j + k) := by
  induction j generalizing content with
  | zero => rw [restAfter, Nat.zero_add]
  | succ j ih => rw [restAfter, ih, Nat.succ_add, restAfter]

/-- A content starts with the tokens of a pair. -/
structure StartsPair (content : List UInt8) : Prop where
  key : (tokens content 0).type = .identifier
  equal : (tokens content 1).type = .equal
  value : (tokens content 2).type = .string

/-- The pair it starts with. -/
def pairOf (content : List UInt8) : KeyValue :=
  ⟨(tokens content 0).identifier, (tokens content 0).len, (tokens content 2).identifier, (tokens content 2).len⟩

section Total

variable {parser : ConfigParser} {content : List UInt8}

/-- **A call returns**: nothing, or the pair behind the tokens it has passed over. -/
theorem returns_total (h : Sees parser (tokens content)) :
    ∃ k parser', (Returns parser (none, parser') ∧ Sees parser' (tokens (restAfter content k))) ∨
      (StartsPair (restAfter content k) ∧ Returns parser (some (pairOf (restAfter content k)), parser') ∧
        Sees parser' (tokens (restAfter content (k + 3)))) := by
  obtain ⟨n, hend⟩ := tokens_end content
  induction n using Nat.strong_induction_on generalizing parser content with
  | _ n ih =>
      by_cases heof : (tokens content 0).type = .eof
      · obtain ⟨parser', hcall, hs⟩ := returns_end h heof
        exact ⟨0, parser', .inl ⟨hcall, hs⟩⟩
      have hn : n ≠ 0 := by
        rintro rfl
        exact heof (hend 0 (Nat.le_refl 0))
      by_cases hpair : (tokens content 0).type = .identifier ∧ (tokens content 1).type = .equal ∧
          (tokens content 2).type = .string
      · obtain ⟨h0, h1, h2⟩ := hpair
        obtain ⟨parser', hcall, hs⟩ := returns_pair h h0 h1 h2
        exact ⟨0, parser', .inr ⟨⟨h0, h1, h2⟩, hcall, hs⟩⟩
      · obtain ⟨parser', j, hj, hs, hround⟩ := parse_round h heof hpair
        rw [← tokens_restAfter] at hs
        have hend' : ∀ i ≥ n - j, (tokens (restAfter content j) i).type = .eof := by
          intro i hi
          rw [tokens_restAfter]
          exact hend (i + j) (by omega)
        obtain ⟨k, parser'', hcall⟩ := ih (n - j) (by omega) hs hend'
        rw [restAfter_add, restAfter_add] at hcall
        refine ⟨j + k, parser'', ?_⟩
        rcases hcall with ⟨hnone, hs'⟩ | ⟨hpair', hsome, hs'⟩
        · exact .inl ⟨returns_of_round hround hnone, hs'⟩
        · exact .inr ⟨hpair', returns_of_round hround hsome, hs'⟩

/-- The calls come to an end. -/
theorem parses_of_sees (h : Sees parser (tokens content)) : ∃ kvs, Parses parser kvs := by
  obtain ⟨n, hend⟩ := tokens_end content
  induction n using Nat.strong_induction_on generalizing parser content with
  | _ n ih =>
      obtain ⟨k, parser', ⟨hcall, -⟩ | ⟨hpair, hcall, hs⟩⟩ := returns_total h
      · exact ⟨[], .done hcall⟩
      · have hk : k < n := by
          by_contra hge
          have heof := hend (0 + k) (by omega)
          have hkey := hpair.key
          rw [tokens_restAfter] at hkey
          exact absurd (hkey.symm.trans heof) (by decide)
        have hend' : ∀ i ≥ n - (k + 3), (tokens (restAfter content (k + 3)) i).type = .eof := by
          intro i hi
          rw [tokens_restAfter]
          exact hend (i + (k + 3)) (by omega)
        obtain ⟨kvs, hrest⟩ := ih (n - (k + 3)) (by omega) hs hend'
        exact ⟨_, .pair hcall hrest⟩

/-- **Every content is parsed to its end.** -/
theorem parses_total (content : List UInt8) : ∃ kvs, Parses (initConfigParser content) kvs :=
  parses_of_sees (sees_init content)

end Total

/-! ## Calls have one outcome -/

theorem returns_unique {parser : ConfigParser} {out out' : Option KeyValue × ConfigParser} (h : Returns parser out)
    (h' : Returns parser out') : out = out' := by
  obtain ⟨n, hn⟩ := h
  obtain ⟨n', hn'⟩ := h'
  have hleft := hn (max n n') (Nat.le_max_left n n')
  have hright := hn' (max n n') (Nat.le_max_right n n')
  exact Except.ok.inj (hleft.symm.trans hright)

/-- The pairs of a content are determined. -/
theorem parses_unique {parser : ConfigParser} {kvs kvs' : List KeyValue} (h : Parses parser kvs)
    (h' : Parses parser kvs') : kvs = kvs' := by
  induction h generalizing kvs' with
  | done hcall =>
      cases h' with
      | done _ => rfl
      | pair hcall' _ => cases returns_unique hcall hcall'
  | pair hcall _ ih =>
      cases h' with
      | done hcall' => cases returns_unique hcall hcall'
      | pair hcall' hrest' =>
          injection returns_unique hcall hcall' with hkv hparser
          injection hkv with hkv
          subst hkv hparser
          rw [ih hrest']

end Hand2
