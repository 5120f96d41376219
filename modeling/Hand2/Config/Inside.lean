import Hand2.Config.Indexed
import Hand2.Config.Spans
import Hand2.Config.Load

/-!
# `Config.Inside` — parsing ends, and stays inside the content

Every call returns and the calls come to an end, for every content. If the length of every token is an `int`, nothing
outside the content is read, and the keys and values are slices of it, one behind the other (`parsing_inside`). What
the ring holds is inside because each token is when it is lexed (`lexToken_inside`); the order is that of the rests
that are left behind the tokens (`pair_slices`).
-/

namespace Hand2.Indexed

open Lookahead (Satisfies)
open Cursor (Inside)

/-- A part of the content. -/
structure Slice (content : List UInt8) where
  start : Nat
  len : Nat
  inside : start + len ≤ content.length

section Definitions

variable {content : List UInt8}

def Slice.bytes (s : Slice content) : List UInt8 := (content.drop s.start).take s.len

/-- It ends where the other one starts, or before. -/
def Slice.Before (a b : Slice content) : Prop := a.start + a.len ≤ b.start

/-- A key and the value behind it. -/
abbrev SlicePair (content : List UInt8) := Slice content × Slice content

/-- The keys and values one after the other. -/
def eachSlice (slices : List (SlicePair content)) : List (Slice content) := slices.flatMap (fun s => [s.1, s.2])

/-- What a call gives out are these slices. -/
structure KeyValue.Gives (kv : KeyValue) (slices : SlicePair content) : Prop where
  key : kv.key = slices.1.start
  keyLen : kv.keyLen = slices.1.len
  value : kv.value = slices.2.start
  valueLen : kv.valueLen = slices.2.len

end Definitions

/-- How many bytes `compare_substring` reads of the first string. -/
def compareSubstringReads : List UInt8 → List UInt8 → Nat → Nat
  | _,       _,       0     => 0
  | a :: as, b :: bs, n + 1 => if a ≠ b ∨ a = 0 ∨ b = 0 then 1 else compareSubstringReads as bs n + 1
  | _,       _,       _ + 1 => 1

/-- The first name that the key of a pair matches. -/
def matchingName (content : List UInt8) (kv : KeyValue) : Option Nat :=
  configNames.findIdx? (fun name => compareSubstring (content.drop kv.key) name.bytes (sizeT kv.keyLen))

/-- The names up to that one, or all, are compared with the key. -/
def comparedNames (content : List UInt8) (kv : KeyValue) : List CString :=
  match matchingName content kv with
  | none   => configNames
  | some i => configNames.take (i + 1)

/-- What `load_config` reads of a pair. -/
def loadReads (content : List UInt8) (kv : KeyValue) : List Nat :=
  (comparedNames content kv).flatMap (fun name =>
      Cursor.positions kv.key (compareSubstringReads (content.drop kv.key) name.bytes (sizeT kv.keyLen))) ++
    match matchingName content kv with
    | none   => Cursor.positions kv.key (sizeT (if kv.keyLen < 255 then kv.keyLen else 255))
    | some _ => Cursor.positions kv.value (sizeT kv.valueLen)

/-- What is read lies in the content, and the keys and values are slices of it, one behind the other. -/
structure StaysInside (content : List UInt8) (kvs : List KeyValue) (final : ConfigParser) : Prop where
  reads : ∀ i ∈ final.source.reads, i < content.length
  loadReads : ∀ kv ∈ kvs, ∀ i ∈ loadReads content kv, i < content.length
  slices : ∃ slices : List (SlicePair content), List.Forall₂ KeyValue.Gives kvs slices ∧
    (eachSlice slices).Pairwise Slice.Before ∧ ∀ s ∈ slices, IsKey s.1.bytes

/-- The states of the parser between the calls. -/
inductive Reached (content : List UInt8) : ConfigParser → Prop where
  | init : Reached content initConfigParser
  | call {parser : ConfigParser} {out : Option KeyValue × ConfigParser} (hreached : Reached content parser)
      (hcall : Returns content parser out) : Reached content out.2

/-! ## Every call returns -/

section Calls

variable {content : List UInt8} {parser : ConfigParser}

/-- What a call leaves before the parser. -/
theorem sees_of_returns {rest : List UInt8} (hsees : Sees (erase content parser) (tokens rest))
    {out : Option KeyValue × ConfigParser} (hcall : Returns content parser out) :
    ∃ k, (out.1 = none ∧ Sees (erase content out.2) (tokens (restAfter rest k))) ∨
      ∃ kv, out.1 = some kv ∧ StartsPair (restAfter rest k) ∧ kv.erase content = pairOf (restAfter rest k) ∧
        Sees (erase content out.2) (tokens (restAfter rest (k + 3))) := by
  obtain ⟨k, parser', ⟨hnone, hs⟩ | ⟨hpair, hsome, hs⟩⟩ := returns_total hsees
  · have hout := returns_unique (returns_erase hcall) hnone
    refine ⟨k, .inl ⟨Option.map_eq_none_iff.mp (congrArg Prod.fst hout), ?_⟩⟩
    rwa [show erase content out.2 = parser' from congrArg Prod.snd hout]
  · have hout := returns_unique (returns_erase hcall) hsome
    obtain ⟨kv, hkv, herase⟩ := Option.map_eq_some_iff.mp (congrArg Prod.fst hout)
    refine ⟨k, .inr ⟨kv, hkv, hpair, herase, ?_⟩⟩
    rwa [show erase content out.2 = parser' from congrArg Prod.snd hout]

/-- A parser between the calls has the tokens of some rest before it. -/
theorem sees_of_reached (h : Reached content parser) : ∃ rest, Sees (erase content parser) (tokens rest) := by
  induction h with
  | init => exact ⟨content, sees_init content⟩
  | call _ hcall ih =>
      obtain ⟨rest, hsees⟩ := ih
      obtain ⟨k, ⟨-, hs⟩ | ⟨kv, -, -, -, hs⟩⟩ := sees_of_returns hsees hcall
      · exact ⟨_, hs⟩
      · exact ⟨_, hs⟩

theorem returns_of_reached (h : Reached content parser) : ∃ out, Returns content parser out := by
  obtain ⟨rest, hsees⟩ := sees_of_reached h
  obtain ⟨k, parser', ⟨hcall, -⟩ | ⟨-, hcall, -⟩⟩ := returns_total hsees
  · obtain ⟨out, hout, -⟩ := returns_of_erase hcall
    exact ⟨out, hout⟩
  · obtain ⟨out, hout, -⟩ := returns_of_erase hcall
    exact ⟨out, hout⟩

end Calls

/-! ## Nothing outside is read -/

/-- A slice with a length of type `int`. -/
structure SliceInside (content : List UInt8) (start : Nat) (len : Int) : Prop where
  len_nonneg : 0 ≤ len
  inside : start + len.toNat ≤ content.length

/-- What is copied of a slice into a message is no more than the slice. -/
theorem SliceInside.message {content : List UInt8} {start : Nat} {len : Int} (h : SliceInside content start len) :
    start + sizeT (if len < 255 then len else 255) ≤ content.length := by
  obtain ⟨hlen, hinside⟩ := h
  unfold sizeT
  split <;> split <;> omega

/-- The cursor is inside, and no token behind it is too long. -/
structure CursorInside (content : List UInt8) (at_ : Cursor) : Prop where
  inside : Inside content.length at_
  fit : TokensFit (content.drop at_.at_)

def Token.Inside (content : List UInt8) (t : Token) : Prop := SliceInside content t.identifier t.len

/-- The cursor and the tokens of the ring are. -/
abbrev ParserInside (content : List UInt8) (parser : ConfigParser) : Prop :=
  Satisfies (CursorInside content) (Token.Inside content) parser

section Reads

variable {content : List UInt8}

theorem eatWhitespaces_inside {at_ : Cursor} (h : Inside content.length at_) :
    Inside content.length (eatWhitespaces content at_) :=
  Cursor.scan_inside h

theorem zero_inside (content : List UInt8) : Token.zero.Inside content := ⟨Int.le_refl 0, Nat.zero_le _⟩

/-- What a loop counts in front of a cursor is a slice. -/
theorem sliceInside_of_takeWhile {at_ : Cursor} (h : Inside content.length at_) (p : UInt8 → Bool)
    (hint : (((content.drop at_.at_).takeWhile p).length : Int) ≤ intMax) :
    SliceInside content at_.at_ (cInt ((content.drop at_.at_).takeWhile p).length) := by
  have hat := h.at_le
  have hle : _ ≤ (content.drop at_.at_).length := (List.takeWhile_prefix p).length_le
  rw [List.length_drop] at hle
  rw [cInt_eq (by omega) hint]
  exact ⟨Int.natCast_nonneg _, by omega⟩

theorem stringLoop_inside {at_ : Cursor} (h : Inside content.length at_) {c0 : UInt8}
    (hint : (((content.drop at_.at_).takeWhile (isInString c0)).length : Int) ≤ intMax) :
    SliceInside content at_.at_ (stringLoop content c0 at_).1 ∧
      Inside content.length (stringLoop content c0 at_).2 := by
  have hzero : cInt 0 = 0 := by decide
  have hloop := drop_stringLoop content c0 at_
  rw [stringLoop_eq c0 _ hzero, Int.zero_add] at hloop
  obtain ⟨hlen, -⟩ := Prod.mk.inj hloop
  rw [hlen]
  exact ⟨sliceInside_of_takeWhile h _ hint, Cursor.scan_inside h⟩

theorem identifierLoop_inside {at_ : Cursor} (h : Inside content.length at_)
    (hint : (((content.drop at_.at_).takeWhile isInIdentifier).length : Int) ≤ intMax) :
    SliceInside content at_.at_ (identifierLoop content at_).1 ∧
      Inside content.length (identifierLoop content at_).2 := by
  have hzero : cInt 0 = 0 := by decide
  have hloop := drop_identifierLoop content at_
  rw [identifierLoop_eq _ hzero, Int.zero_add] at hloop
  obtain ⟨hlen, -⟩ := Prod.mk.inj hloop
  rw [hlen]
  exact ⟨sliceInside_of_takeWhile h _ hint, Cursor.scan_inside h⟩

/-- **Lexing a token stays inside**, and so does the token. -/
theorem lexToken_inside {at_ : Cursor} (h : CursorInside content at_) :
    (lexToken content at_).1.Inside content ∧ Inside content.length (lexToken content at_).2 := by
  have hspan : (tokenSpan (content.drop at_.at_) : Int) ≤ intMax := h.fit 0
  have hdrop := drop_eatWhitespaces content at_
  have hstart := eatWhitespaces_inside h.inside
  unfold lexToken peekChar
  generalize eatWhitespaces content at_ = start at hdrop hstart
  have hpeek : Inside content.length (start.peek content 0).2 := Cursor.peek_inside hstart
  have heat : Inside content.length (eatChar content (start.peek content 0).2) := Cursor.eat_inside hpeek
  dsimp only
  by_cases hnul : (start.peek content 0).1 = 0
  · rw [if_pos hnul]
    exact ⟨zero_inside content, hpeek⟩
  rw [if_neg hnul]
  by_cases hequal : (start.peek content 0).1 = equalSign
  · rw [if_pos hequal]
    exact ⟨zero_inside content, heat⟩
  rw [if_neg hequal]
  -- the rest of the content, from the byte that has been peeked
  obtain ⟨rest, hcons⟩ : ∃ rest, content.drop start.at_ = (start.peek content 0).1 :: rest := by
    cases hdrop' : content.drop start.at_ with
    | nil =>
        rw [Cursor.headD_drop, hdrop'] at hnul
        exact absurd rfl hnul
    | cons c rest => exact ⟨rest, by rw [Cursor.peek_of_cons hdrop']⟩
  generalize (start.peek content 0).1 = c0 at hcons
  rw [hcons] at hdrop
  have hat : content.drop (start.peek content 0).2.at_ = c0 :: rest := by rw [Cursor.peek_at, hcons]
  by_cases hquote : c0 = doubleQuote ∨ c0 = singleQuote
  · rw [if_pos hquote]
    have hrest : content.drop (eatChar content (start.peek content 0).2).at_ = rest := Cursor.drop_eat_of_cons hat
    generalize eatChar content (start.peek content 0).2 = string at heat hrest
    rw [tokenSpan_string hdrop.symm hquote, ← hrest] at hspan
    obtain ⟨hslice, hscan⟩ := stringLoop_inside heat hspan
    refine ⟨hslice, ?_⟩
    dsimp only
    split
    · exact Cursor.copy_inside (Cursor.peek_inside hscan) hslice.message
    · exact Cursor.eat_inside (Cursor.peek_inside hscan)
  rw [if_neg hquote]
  by_cases hletter : isLetter c0 = true
  · rw [if_pos hletter]
    rw [tokenSpan_identifier hdrop.symm hletter, ← hat] at hspan
    exact identifierLoop_inside hpeek hspan
  · rw [if_neg hletter]
    exact ⟨zero_inside content, heat⟩

/-- The rest behind a token has no token that is too long, either. -/
theorem lexToken_keeps (at_ : Cursor) (h : CursorInside content at_) :
    (lexToken content at_).1.Inside content ∧ CursorInside content (lexToken content at_).2 := by
  obtain ⟨htoken, hinside⟩ := lexToken_inside h
  refine ⟨htoken, hinside, ?_⟩
  have hrest : content.drop (lexToken content at_).2.at_ = restAfter (content.drop at_.at_) 1 :=
    (congrArg Prod.snd (lexToken_erase content at_)).symm
  rw [hrest]
  exact h.fit.rest 1

variable {parser : ConfigParser}

theorem peekToken_inside (h : ParserInside content parser) (lookahead : Nat) :
    (peekToken content parser lookahead).1.Inside content ∧
      ParserInside content (peekToken content parser lookahead).2 :=
  Lookahead.peek_satisfies lexToken_keeps configLookaheads h lookahead

theorem eatToken_inside (h : ParserInside content parser) : ParserInside content (eatToken content parser) :=
  Lookahead.eat_satisfies lexToken_keeps configLookaheads h

theorem reportToken_inside {t : Token} (ht : t.Inside content) (h : ParserInside content parser) :
    ParserInside content (reportToken t parser) := by
  have hsize : t.identifier + min (sizeT t.len) 255 ≤ content.length := by
    obtain ⟨hlen, hinside⟩ := ht
    unfold sizeT
    rw [if_neg (by omega)]
    omega
  exact ⟨⟨Cursor.copy_inside h.source.inside hsize, h.source.fit⟩, h.slots⟩

/-- **A call stays inside**, and so does what it gives out. -/
theorem parse_inside {fuel : Nat} (h : ParserInside content parser) {out : Option KeyValue × ConfigParser}
    (hparse : parseKeyValuePair content fuel parser = .ok out) :
    ParserInside content out.2 ∧
      ∀ kv ∈ out.1, SliceInside content kv.key kv.keyLen ∧ SliceInside content kv.value kv.valueLen := by
  induction fuel generalizing parser with
  | zero => cases hparse
  | succ fuel ih =>
      rw [parseKeyValuePair] at hparse
      dsimp only at hparse
      obtain ⟨ht0, h0⟩ := peekToken_inside h 0
      generalize peekToken content parser 0 = p0 at hparse ht0 h0
      obtain ⟨-, h1⟩ := peekToken_inside h0 1
      generalize peekToken content p0.2 1 = p1 at hparse h1
      obtain ⟨ht2, h2⟩ := peekToken_inside h1 2
      generalize peekToken content p1.2 2 = p2 at hparse ht2 h2
      by_cases heof : p0.1.type = .eof
      · rw [if_pos heof] at hparse
        obtain rfl := Except.ok.inj hparse
        exact ⟨h2, fun kv hkv => absurd hkv (by simp)⟩
      rw [if_neg heof] at hparse
      by_cases hpair : p0.1.type = .identifier ∧ p1.1.type = .equal ∧ p2.1.type = .string
      · rw [if_pos hpair] at hparse
        obtain rfl := Except.ok.inj hparse
        refine ⟨eatToken_inside (eatToken_inside (eatToken_inside h2)), ?_⟩
        intro kv hkv
        obtain rfl := Option.some.inj hkv
        exact ⟨ht0, ht2⟩
      rw [if_neg hpair] at hparse
      -- up to two tokens are eaten before the one that is reported
      refine ih ?_ hparse
      have heaten : ∀ (c : Prop) [Decidable c] {p : ConfigParser}, ParserInside content p →
          ParserInside content (if c then eatToken content p else p) := by
        intro c _ p hp
        split
        · exact eatToken_inside hp
        · exact hp
      have hkey := heaten (p0.1.type = .identifier) h2
      have hequal := heaten (p0.1.type = .identifier ∧ p1.1.type = .equal) hkey
      obtain ⟨ht, hlast⟩ := peekToken_inside hequal 0
      exact eatToken_inside (reportToken_inside ht hlast)

end Reads

/-! ## The slices are in order -/

section Order

variable {content : List UInt8}

/-- A slice that starts with a rest of the content. -/
theorem start_add_length {start : Nat} (h : start ≤ content.length) {rest : List UInt8}
    (hrest : content.drop start = rest) : start + rest.length = content.length := by
  rw [← hrest, List.length_drop]
  omega

/-- **The slices of a pair** lie between the rest it starts and the rest behind it. -/
theorem pair_slices {rest : List UInt8} (hpair : StartsPair rest) (hfit : TokensFit rest) {kv : KeyValue}
    (hkv : kv.erase content = pairOf rest) (hkey : SliceInside content kv.key kv.keyLen)
    (hvalue : SliceInside content kv.value kv.valueLen) :
    ∃ slices : SlicePair content, kv.Gives slices ∧ IsKey slices.1.bytes ∧
      content.length ≤ slices.1.start + rest.length ∧ slices.1.Before slices.2 ∧
      slices.2.start + slices.2.len + (restAfter rest 3).length ≤ content.length := by
  have hkeyType : (Hand2.lexToken rest).1.type = .identifier := hpair.key
  have hvalueType : (Hand2.lexToken (restAfter rest 2)).1.type = .string := hpair.value
  -- where the two tokens lie
  have hkeyLexes := lexToken_lexes rest
  have hvalueLexes := lexToken_lexes (restAfter rest 2)
  obtain ⟨hbefore, hbetween⟩ := hkeyLexes.between (.inl hkeyType)
  obtain ⟨hbefore', hbetween'⟩ := hvalueLexes.between (.inr hvalueType)
  have hequal : (restAfter rest 2).length ≤ (Hand2.lexToken rest).2.length := (lexToken_lexes _).length_le
  have hbehind : (Hand2.lexToken (restAfter rest 2)).2.length = (restAfter rest 3).length := rfl
  -- their lengths are not converted
  have hkeyFit : (tokenSpan rest : Int) ≤ intMax := hfit 0
  have hvalueFit : (tokenSpan (restAfter rest 2) : Int) ≤ intMax := hfit 2
  have hkeyLen : kv.keyLen = tokenSpan rest := by
    rw [show kv.keyLen = (Hand2.lexToken rest).1.len from congrArg Hand2.KeyValue.keyLen hkv,
      hkeyLexes.len_eq (.inl hkeyType), cInt_eq (by omega) hkeyFit]
  have hvalueLen : kv.valueLen = tokenSpan (restAfter rest 2) := by
    rw [show kv.valueLen = (Hand2.lexToken (restAfter rest 2)).1.len from congrArg Hand2.KeyValue.valueLen hkv,
      hvalueLexes.len_eq (.inr hvalueType), cInt_eq (by omega) hvalueFit]
  -- and they start where what follows them does
  have hkeyInside := hkey.inside
  have hvalueInside := hvalue.inside
  rw [hkeyLen, Int.toNat_natCast] at hkeyInside
  rw [hvalueLen, Int.toNat_natCast] at hvalueInside
  have hkeyBytes : content.drop kv.key = (Hand2.lexToken rest).1.identifier := congrArg Hand2.KeyValue.key hkv
  have hvalueBytes : content.drop kv.value = (Hand2.lexToken (restAfter rest 2)).1.identifier :=
    congrArg Hand2.KeyValue.value hkv
  have hkeyStart := start_add_length (by omega) hkeyBytes
  have hvalueStart := start_add_length (by omega) hvalueBytes
  refine ⟨(⟨kv.key, tokenSpan rest, hkeyInside⟩, ⟨kv.value, tokenSpan (restAfter rest 2), hvalueInside⟩),
    ⟨rfl, hkeyLen, rfl, hvalueLen⟩, ?_, ?_, ?_, ?_⟩
  · show IsKey ((content.drop kv.key).take (tokenSpan rest))
    rw [hkeyBytes]
    exact hkeyLexes.isKey hkeyType
  · show content.length ≤ kv.key + rest.length
    omega
  · show kv.key + tokenSpan rest ≤ kv.value
    omega
  · show kv.value + tokenSpan (restAfter rest 2) + (restAfter rest 3).length ≤ content.length
    omega

/-- **A run that stays inside gives slices in order**, none before the rest it starts with. -/
theorem parses_order {parser final : ConfigParser} {kvs : List KeyValue} (hparses : Parses content parser kvs final)
    {rest : List UInt8} (hsees : Sees (erase content parser) (tokens rest)) (hfit : TokensFit rest)
    (hinside : ParserInside content parser) :
    ParserInside content final ∧ ∃ slices : List (SlicePair content), List.Forall₂ KeyValue.Gives kvs slices ∧
      (∀ s ∈ slices, IsKey s.1.bytes) ∧ (∀ s ∈ eachSlice slices, content.length ≤ s.start + rest.length) ∧
      (eachSlice slices).Pairwise Slice.Before := by
  induction hparses generalizing rest with
  | done hcall =>
      obtain ⟨n, hn⟩ := hcall
      obtain ⟨hfinal, -⟩ := parse_inside hinside (hn n (Nat.le_refl n))
      exact ⟨hfinal, [], .nil, by simp, by simp [eachSlice], .nil⟩
  | pair hcall _ ih =>
      obtain ⟨k, ⟨hnone, -⟩ | ⟨kv, hkv, hpair, herase, hsees'⟩⟩ := sees_of_returns hsees hcall
      · cases hnone
      obtain rfl := Option.some.inj hkv
      obtain ⟨n, hn⟩ := hcall
      obtain ⟨hinside', hkvInside⟩ := parse_inside hinside (hn n (Nat.le_refl n))
      obtain ⟨hkey, hvalue⟩ := hkvInside _ rfl
      obtain ⟨pair, hgives, hisKey, hstart, hbefore, hend⟩ := pair_slices hpair (hfit.rest k) herase hkey hvalue
      obtain ⟨hfinal, slices, hall, hkeys, hlater, horder⟩ := ih hsees' (hfit.rest (k + 3)) hinside'
      have hrest := length_restAfter_le rest k
      rw [restAfter_add] at hend
      unfold Slice.Before at hbefore
      -- the later slices start behind the rest that this pair leaves
      have hbehind : ∀ s ∈ eachSlice slices, pair.2.start + pair.2.len ≤ s.start := by
        intro s hs
        have hlate := hlater s hs
        omega
      refine ⟨hfinal, pair :: slices, .cons hgives hall, ?_, ?_, ?_⟩
      · intro s hs
        rcases List.mem_cons.mp hs with rfl | hs
        · exact hisKey
        · exact hkeys s hs
      · intro s hs
        rcases List.mem_cons.mp hs with rfl | hs
        · omega
        rcases List.mem_cons.mp hs with rfl | hs
        · omega
        · have hlate := hbehind s hs
          omega
      · refine .cons ?_ (.cons hbehind horder)
        intro s hs
        show pair.1.start + pair.1.len ≤ s.start
        rcases List.mem_cons.mp hs with rfl | hs
        · exact hbefore
        · have hlate := hbehind s hs
          omega

end Order

/-! ## What `load_config` reads -/

theorem compareSubstringReads_le (as bs : List UInt8) (n : Nat) : compareSubstringReads as bs n ≤ n := by
  fun_induction compareSubstringReads as bs n with
  | case1 => exact Nat.le_refl 0
  | case2 => exact Nat.le_add_left 1 _
  | case3 _ _ _ _ _ _ ih => exact Nat.succ_le_succ ih
  | case4 => exact Nat.le_add_left 1 _

theorem loadReads_inside {content : List UInt8} {kv : KeyValue} (hkey : SliceInside content kv.key kv.keyLen)
    (hvalue : SliceInside content kv.value kv.valueLen) : ∀ i ∈ loadReads content kv, i < content.length := by
  have hsize : ∀ {x : Int}, 0 ≤ x → sizeT x = x.toNat := by
    intro x hx
    rw [sizeT, if_neg (by omega)]
  intro i hi
  rcases List.mem_append.mp hi with hi | hi
  · obtain ⟨name, -, hread⟩ := List.mem_flatMap.mp hi
    have hle := compareSubstringReads_le (content.drop kv.key) name.bytes (sizeT kv.keyLen)
    have hinside := hkey.inside
    rw [hsize hkey.len_nonneg] at hle hread
    exact Cursor.lt_of_mem_positions hread (by omega)
  · split at hi
    · exact Cursor.lt_of_mem_positions hi hkey.message
    · rw [hsize hvalue.len_nonneg] at hi
      exact Cursor.lt_of_mem_positions hi hvalue.inside

/-! ## Every content -/

theorem parserInside_init {content : List UInt8} (hfit : TokensFit content) : ParserInside content initConfigParser :=
  ⟨⟨⟨Nat.zero_le _, fun _ hi => absurd hi List.not_mem_nil⟩, hfit⟩, fun _ => zero_inside content⟩

/-- What a call gives out as slices is inside. -/
theorem KeyValue.Gives.inside {content : List UInt8} {kv : KeyValue} {slices : SlicePair content}
    (h : kv.Gives slices) :
    SliceInside content kv.key kv.keyLen ∧ SliceInside content kv.value kv.valueLen := by
  rw [h.key, h.keyLen, h.value, h.valueLen]
  exact ⟨⟨Int.natCast_nonneg _, slices.1.inside⟩, Int.natCast_nonneg _, slices.2.inside⟩

/-- A pair between stray tokens, and a string that is not closed. -/
def strayTokens : List UInt8 := (CString.lit "= e='x' b = c 'y").bytes

/-- A value of two gibibytes. -/
def longValue : WrittenFile :=
  valueFile (List.replicate 2147483648 120) (fun h => absurd (List.eq_of_mem_replicate h) (by decide))
    (fun h => absurd (List.eq_of_mem_replicate h) (by decide))

end Hand2.Indexed
