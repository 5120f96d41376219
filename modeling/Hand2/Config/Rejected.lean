import Hand2.Config.RoundTrip

/-!
# `Config.Rejected` — a byte that begins no token

`lex_token` reports such a byte, eats it and returns the token of zeros, and the type of that token is `Token_eof`. So
the parser, which would pass over a token that does not belong, takes the byte for the end of the file: none of the
pairs behind it is returned (`parses_inserted`).
-/

namespace Hand2

/-- A byte for which `lex_token` says `unrecognized char`: none of its branches takes it. -/
structure Rejected (c : UInt8) : Prop where
  nul : c ≠ 0
  blank : ¬ isBlank c
  comment : c ≠ numberSign
  equal : c ≠ equalSign
  quote : ¬ (c = doubleQuote ∨ c = singleQuote)
  letter : ¬ isLetter c

/-- Lexing such a byte. -/
theorem lexToken_rejected {gap : List Spacing} (hnul : GapNulFree gap) {c : UInt8} (hc : Rejected c)
    (rest : List UInt8) : lexToken (renderGap gap ++ c :: rest) = (.zero, rest) := by
  unfold lexToken
  rw [eatWhitespaces_gap hnul, eatWhitespaces_start hc.nul hc.comment hc.blank]
  dsimp only
  rw [if_neg hc.nul, if_neg hc.equal, if_neg hc.quote, if_neg hc.letter]

/-- The key and the value that a call gives out. -/
def KeyValue.slices (kv : KeyValue) : List UInt8 × List UInt8 :=
  (kv.key.take kv.keyLen.toNat, kv.value.take kv.valueLen.toNat)

/-- `parse_key_value_pair` returns the same keys and values for both contents, in the same order. -/
def SamePairs (content content' : List UInt8) : Prop :=
  ∃ kvs kvs', Parses (initConfigParser content) kvs ∧ Parses (initConfigParser content') kvs' ∧
    kvs'.map KeyValue.slices = kvs.map KeyValue.slices

/-- A byte with spacing around it, between pairs and what comes behind them. -/
def insertBehind (pairs : List WrittenPair) (before : List Spacing) (c : UInt8) (after : List Spacing)
    (rest : List UInt8) : List UInt8 :=
  pairs.flatMap WrittenPair.render ++ (renderGap before ++ c :: (renderGap after ++ rest))

/-- A file whose pairs stand before or behind a place. -/
structure SplitFile where
  file : WrittenFile
  front : List WrittenPair
  next : WrittenPair
  others : List WrittenPair
  pairs_eq : file.pairs = front ++ next :: others

/-- What is written behind the place. -/
def SplitFile.back (s : SplitFile) : List UInt8 :=
  (s.next :: s.others).flatMap WrittenPair.render ++ s.file.ending

/-- A converted length does not grow. -/
theorem cInt_toNat_le (n : Nat) : (cInt n).toNat ≤ n := by
  simp only [cInt, Int.bmod]
  omega

/-- The slices of a pair are those of its key and its value. -/
theorem slices_of_readsInt {kv : KeyValue} {key value : List UInt8} (h : kv.ReadsInt key value) :
    kv.slices = (key.take (cInt key.length).toNat, value.take (cInt value.length).toNat) := by
  obtain ⟨⟨hkeyLen, hkey⟩, hvalueLen, hvalue⟩ := h
  have htake : ∀ {whole part : List UInt8}, whole.take part.length = part →
      whole.take (cInt part.length).toNat = part.take (cInt part.length).toNat := by
    intro whole part hpart
    rw [← hpart, List.take_take, hpart, Nat.min_eq_left (cInt_toNat_le part.length)]
  rw [KeyValue.slices, hkeyLen, hvalueLen, htake hkey, htake hvalue]

/-- Two readings of the same pairs have the same slices. -/
theorem map_slices_eq {pairs : List WrittenPair} {kvs kvs' : List KeyValue}
    (h : List.Forall₂ (fun w kv => KeyValue.ReadsInt kv w.key w.value) pairs kvs)
    (h' : List.Forall₂ (fun w kv => KeyValue.ReadsInt kv w.key w.value) pairs kvs') :
    kvs'.map KeyValue.slices = kvs.map KeyValue.slices := by
  induction h generalizing kvs' with
  | nil =>
      cases h'
      rfl
  | cons hread _ ih =>
      cases h' with
      | cons hread' hrest' =>
          rw [List.map_cons, List.map_cons, slices_of_readsInt hread, slices_of_readsInt hread', ih hrest']

/-- With a rejected byte between its pairs a file loses all pairs behind the byte, and no other. -/
theorem parses_inserted {s : SplitFile} (hnul : s.file.NulFree) {before : List Spacing} (hbefore : GapNulFree before)
    (after : List Spacing) {c : UInt8} (hc : Rejected c) :
    ∃ kvs kvs', Parses (initConfigParser s.file.render) kvs ∧
      Parses (initConfigParser (insertBehind s.front before c after s.back)) kvs' ∧
      kvs.length = s.file.pairs.length ∧
      kvs'.map KeyValue.slices = (kvs.map KeyValue.slices).take s.front.length := by
  obtain ⟨kvs, hparses, hall⟩ := parses_written hnul
  have heof : (tokens (renderGap before ++ c :: (renderGap after ++ s.back)) 0).type = .eof := by
    show (lexToken _).1.type = .eof
    rw [lexToken_rejected hbefore hc]
    rfl
  have hfront : ∀ w ∈ s.front, GapNulFree w.beforeKey ∧ GapNulFree w.beforeEqual ∧ GapNulFree w.afterEqual := by
    intro w hw
    apply hnul.pairs
    rw [s.pairs_eq]
    exact List.mem_append_left _ hw
  obtain ⟨kvs', hparses', hall'⟩ := parses_pairs hfront heof
  refine ⟨kvs, kvs', hparses, hparses', hall.length_eq.symm, ?_⟩
  have htake := List.forall₂_take s.front.length hall
  rw [s.pairs_eq, List.take_left] at htake
  rw [← List.map_take]
  exact map_slices_eq htake hall'

/-- **A rejected byte hides the rest.** Wherever it stands in front of a pair, the calls no longer return what they
    returned without it. -/
theorem rejected_hides (s : SplitFile) (hnul : s.file.NulFree) (before after : List Spacing)
    (hbefore : GapNulFree before) (c : UInt8) (hc : Rejected c) :
    ¬ SamePairs s.file.render (insertBehind s.front before c after s.back) := by
  obtain ⟨kvs, kvs', hparses, hparses', hlen, htake⟩ := parses_inserted hnul hbefore after hc
  rintro ⟨kvs₁, kvs₁', hparses₁, hparses₁', hsame⟩
  obtain rfl := parses_unique hparses hparses₁
  obtain rfl := parses_unique hparses' hparses₁'
  have hlength := congrArg List.length (hsame.symm.trans htake)
  rw [List.length_take, List.length_map, hlen, s.pairs_eq, List.length_append, List.length_cons] at hlength
  omega

/-! ## Two pairs and a dollar sign -/

theorem isBlank_newline : isBlank newline := rfl

theorem noLastComment_line : ∀ text ∈ (none : Option (List UInt8)), newline ∉ text := by
  simp

/-- The end of a line. -/
def lineBreak : List Spacing := [.blank newline isBlank_newline]

/-- `a= 'c'` and, on the next line, `a= 'd'`. -/
def twoPairs : WrittenFile where
  pairs := [pairA [] [99] (by decide) (by decide), pairA lineBreak [100] (by decide) (by decide)]
  after := lineBreak
  lastComment := none
  lastComment_line := noLastComment_line

/-- The place between the two lines. -/
def betweenPairs : SplitFile where
  file := twoPairs
  front := [pairA [] [99] (by decide) (by decide)]
  next := pairA lineBreak [100] (by decide) (by decide)
  others := []
  pairs_eq := rfl

theorem nulFree_twoPairs : betweenPairs.file.NulFree := by
  have hgap : ∀ gap : List Spacing, gap = [] ∨ (∃ c h, gap = [.blank c h]) → GapNulFree gap := by
    rintro gap (rfl | ⟨c, h, rfl⟩) text hline hmem
    · exact absurd hmem List.not_mem_nil
    · exact absurd (List.mem_singleton.mp hmem) (by simp)
  refine ⟨?_, hgap _ (.inr ⟨_, _, rfl⟩), fun text hmem => absurd hmem (by simp [betweenPairs, twoPairs])⟩
  intro w hw
  rcases List.mem_cons.mp hw with rfl | hw
  · exact ⟨hgap _ (.inl rfl), hgap _ (.inl rfl), hgap _ (.inr ⟨_, _, rfl⟩)⟩
  · obtain rfl := List.mem_singleton.mp hw
    exact ⟨hgap _ (.inr ⟨_, _, rfl⟩), hgap _ (.inl rfl), hgap _ (.inr ⟨_, _, rfl⟩)⟩

theorem gapNulFree_lineBreak : GapNulFree lineBreak := by
  intro text _ hmem
  exact absurd (List.mem_singleton.mp hmem) (by simp)

theorem rejected_dollar : Rejected 36 := ⟨by decide, by decide, by decide, by decide, by decide, by decide⟩

theorem rejected_hides_second :
    ¬ SamePairs twoPairs.render
      (insertBehind betweenPairs.front lineBreak 36 lineBreak betweenPairs.back) :=
  rejected_hides betweenPairs nulFree_twoPairs lineBreak lineBreak gapNulFree_lineBreak 36
    rejected_dollar

/-- The first call returns the first pair; the second one meets the dollar sign and says that this was all. -/
theorem rejected_hides_counterexample :
    twoPairs.render = (CString.lit "a= 'c'\na= 'd'\n").bytes ∧
      insertBehind betweenPairs.front lineBreak 36 lineBreak betweenPairs.back
        = (CString.lit "a= 'c'\n$\n\na= 'd'\n").bytes ∧
      ∃ kvs kvs', Parses (initConfigParser (CString.lit "a= 'c'\na= 'd'\n").bytes) kvs ∧
        Parses (initConfigParser (CString.lit "a= 'c'\n$\n\na= 'd'\n").bytes) kvs' ∧
        kvs.length = 2 ∧ kvs'.length = 1 := by
  have hrender : twoPairs.render = (CString.lit "a= 'c'\na= 'd'\n").bytes := by decide +kernel
  have hinsert : insertBehind betweenPairs.front lineBreak 36 lineBreak betweenPairs.back
      = (CString.lit "a= 'c'\n$\n\na= 'd'\n").bytes := by
    decide +kernel
  obtain ⟨kvs, kvs', hparses, hparses', hlen, htake⟩ :=
    parses_inserted nulFree_twoPairs gapNulFree_lineBreak lineBreak rejected_dollar
  rw [hinsert] at hparses'
  rw [show betweenPairs.file.render = twoPairs.render from rfl, hrender] at hparses
  have hlen' := congrArg List.length htake
  rw [List.length_map, List.length_take, List.length_map, hlen] at hlen'
  exact ⟨hrender, hinsert, kvs, kvs', hparses, hparses', hlen, hlen'⟩

end Hand2
