import Hand2.Config.Parser
import Mathlib.Data.List.Forall2

/-!
# `Config.RoundTrip` — a config file, as its authors write it

A written file is a list of pairs with spacing around every token. Reading it gives the pairs back, in every layout
(`parses_written`), up to two limits of the parser: a NUL byte in a comment ends the file, and the length of a slice is
an `int`.
-/

namespace Hand2

/-! ## Written files -/

/-- A part of the spacing: a blank, or a comment and the line break behind it. -/
inductive Spacing where
  | blank (c : UInt8) (hblank : isBlank c)
  | comment (text : List UInt8) (hline : newline ∉ text)

def Spacing.render : Spacing → List UInt8
  | blank c _      => [c]
  | comment text _ => numberSign :: text ++ [newline]

/-- How spacing is written. -/
def renderGap (gap : List Spacing) : List UInt8 := gap.flatMap Spacing.render

/-- A pair with its layout. -/
structure WrittenPair where
  beforeKey : List Spacing
  letter : UInt8
  letters : List UInt8
  beforeEqual : List Spacing
  afterEqual : List Spacing
  quote : UInt8
  value : List UInt8
  letter_ok : isLetter letter
  letters_ok : ∀ c ∈ letters, isIdentifierChar c
  quote_ok : quote = doubleQuote ∨ quote = singleQuote
  value_nul : (0 : UInt8) ∉ value
  value_quote : quote ∉ value

namespace WrittenPair

/-- The key. -/
def key (w : WrittenPair) : List UInt8 := w.letter :: w.letters

def render (w : WrittenPair) : List UInt8 :=
  renderGap w.beforeKey ++ (w.key ++ (renderGap w.beforeEqual ++ equalSign ::
    (renderGap w.afterEqual ++ w.quote :: (w.value ++ [w.quote]))))

end WrittenPair

/-- A file: its pairs, and what comes behind the last. -/
structure WrittenFile where
  pairs : List WrittenPair
  after : List Spacing
  /-- A comment without a line break. -/
  lastComment : Option (List UInt8)
  lastComment_line : ∀ text ∈ lastComment, newline ∉ text

namespace WrittenFile

/-- What is written behind the last pair. -/
def ending (file : WrittenFile) : List UInt8 :=
  renderGap file.after ++ (match file.lastComment with
    | none      => []
    | some text => numberSign :: text)

def render (file : WrittenFile) : List UInt8 := file.pairs.flatMap WrittenPair.render ++ file.ending

end WrittenFile

/-- `out_key` and `out_value` are the slices of this key and this value. -/
def KeyValue.Reads (kv : KeyValue) (key value : List UInt8) : Prop :=
  (kv.keyLen = key.length ∧ kv.key.take key.length = key) ∧
    kv.valueLen = value.length ∧ kv.value.take value.length = value

/-- Successive calls of `parse_key_value_pair` return the keys and values of the file, and then `0`. -/
def WrittenFile.ReadsBack (file : WrittenFile) : Prop :=
  ∃ kvs, Parses (initConfigParser file.render) kvs ∧
    List.Forall₂ (fun w kv => kv.Reads w.key w.value) file.pairs kvs

/-! ## Comments without NUL -/

/-- No comment of the spacing has a NUL byte. -/
def GapNulFree (gap : List Spacing) : Prop := ∀ text h, .comment text h ∈ gap → (0 : UInt8) ∉ text

/-- Nor does any comment of the file. -/
structure WrittenFile.NulFree (file : WrittenFile) : Prop where
  pairs : ∀ w ∈ file.pairs, GapNulFree w.beforeKey ∧ GapNulFree w.beforeEqual ∧ GapNulFree w.afterEqual
  after : GapNulFree file.after
  lastComment : ∀ text ∈ file.lastComment, (0 : UInt8) ∉ text

/-! ## Lexing -/

section Lexing

/-- A comment is passed over to the end of its line. -/
theorem eatWhitespaces_comment {text : List UInt8} (rest : List UInt8) (hline : newline ∉ text)
    (hnul : (0 : UInt8) ∉ text) :
    eatWhitespaces true (text ++ newline :: rest) = eatWhitespaces false rest := by
  induction text with
  | nil => simp [eatWhitespaces, newline]
  | cons c text ih =>
      have hc0 : c ≠ 0 := fun h => hnul (h ▸ List.mem_cons_self)
      have hcn : c ≠ newline := fun h => hline (h ▸ List.mem_cons_self)
      rw [List.cons_append, eatWhitespaces, if_neg hc0, if_pos rfl, decide_eq_true hcn]
      exact ih (fun h => hline (List.mem_cons_of_mem _ h)) (fun h => hnul (List.mem_cons_of_mem _ h))

/-- A comment without a line break is passed over to the end. -/
theorem eatWhitespaces_lastComment {text : List UInt8} (hline : newline ∉ text) (hnul : (0 : UInt8) ∉ text) :
    eatWhitespaces true text = [] := by
  induction text with
  | nil => rfl
  | cons c text ih =>
      have hc0 : c ≠ 0 := fun h => hnul (h ▸ List.mem_cons_self)
      have hcn : c ≠ newline := fun h => hline (h ▸ List.mem_cons_self)
      rw [eatWhitespaces, if_neg hc0, if_pos rfl, decide_eq_true hcn]
      exact ih (fun h => hline (List.mem_cons_of_mem _ h)) (fun h => hnul (List.mem_cons_of_mem _ h))

/-- Spacing is passed over. -/
theorem eatWhitespaces_gap {gap : List Spacing} (hnul : GapNulFree gap) (rest : List UInt8) :
    eatWhitespaces false (renderGap gap ++ rest) = eatWhitespaces false rest := by
  induction gap with
  | nil => rfl
  | cons item gap ih =>
      have hgap := ih (fun text h hmem => hnul text h (List.mem_cons_of_mem _ hmem))
      cases item with
      | blank c hblank =>
          have hc0 : c ≠ 0 := by
            rintro rfl
            exact absurd hblank (by decide)
          have hcn : c ≠ numberSign := by
            rintro rfl
            exact absurd hblank (by decide)
          show eatWhitespaces false (c :: (renderGap gap ++ rest)) = _
          rw [eatWhitespaces, if_neg hc0, if_neg (by decide), if_neg hcn, if_pos hblank, hgap]
      | comment text hline =>
          show eatWhitespaces false ((numberSign :: text ++ [newline] ++ renderGap gap) ++ rest) = _
          rw [show (numberSign :: text ++ [newline] ++ renderGap gap) ++ rest
            = numberSign :: (text ++ newline :: (renderGap gap ++ rest)) by simp]
          rw [eatWhitespaces, if_neg (by decide), if_neg (by decide), if_pos rfl,
            eatWhitespaces_comment _ hline (hnul text hline List.mem_cons_self), hgap]

/-- A byte that is no spacing is where the next token begins. -/
theorem eatWhitespaces_start {c : UInt8} (hnul : c ≠ 0) (hcomment : c ≠ numberSign) (hblank : ¬ isBlank c)
    (rest : List UInt8) : eatWhitespaces false (c :: rest) = c :: rest := by
  rw [eatWhitespaces, if_neg hnul, if_neg (by decide), if_neg hcomment, if_neg hblank]

/-- Spacing and an equal sign do not go on with an identifier. -/
theorem peekChar_gap (gap : List Spacing) (rest : List UInt8) :
    ¬ isIdentifierChar (peekChar (renderGap gap ++ equalSign :: rest)) := by
  cases gap with
  | nil =>
      show ¬ isIdentifierChar equalSign = true
      decide
  | cons item gap =>
      cases item with
      | blank c hblank =>
          show ¬ isIdentifierChar c = true
          simp only [isBlank, newline, Bool.or_eq_true, beq_iff_eq] at hblank
          rcases hblank with ((rfl | rfl) | rfl) | rfl
          all_goals decide
      | comment text _ =>
          show ¬ isIdentifierChar numberSign = true
          decide

/-- Lexing a key. -/
theorem lexToken_key {gap : List Spacing} (hnul : GapNulFree gap) {letter : UInt8} {letters rest : List UInt8}
    (hletter : isLetter letter) (hletters : ∀ c ∈ letters, isIdentifierChar c)
    (hrest : ¬ isIdentifierChar (peekChar rest)) :
    lexToken (renderGap gap ++ (letter :: letters ++ rest))
      = (⟨.identifier, cInt (letter :: letters).length, letter :: letters ++ rest⟩, rest) := by
  obtain ⟨h0, hcomment, hblank, hequal, hquote⟩ := isLetter_ne hletter
  have hkey : ∀ c ∈ letter :: letters, c ≠ 0 ∧ isIdentifierChar c := by
    intro c hc
    have hchar : isIdentifierChar c := by
      rcases List.mem_cons.mp hc with rfl | hc
      · simp [isIdentifierChar, hletter]
      · exact hletters c hc
    exact ⟨isIdentifierChar_ne_zero hchar, hchar⟩
  -- the loop stops at `rest`, whose first byte is of the gap or the equal sign
  have hscan := identifierLoop_append rest (show cInt 0 = 0 by decide) hkey hrest
  unfold lexToken
  rw [eatWhitespaces_gap hnul, List.cons_append, eatWhitespaces_start h0 hcomment hblank]
  dsimp only
  rw [if_neg h0, if_neg hequal, if_neg hquote, if_pos hletter, ← List.cons_append, hscan, Int.zero_add]

/-- Lexing an equal sign. -/
theorem lexToken_equal {gap : List Spacing} (hnul : GapNulFree gap) (rest : List UInt8) :
    lexToken (renderGap gap ++ equalSign :: rest) = (⟨.equal, 0, []⟩, rest) := by
  unfold lexToken
  rw [eatWhitespaces_gap hnul, eatWhitespaces_start (by decide) (by decide) (by decide)]
  rfl

/-- Lexing a string. -/
theorem lexToken_string {gap : List Spacing} (hnul : GapNulFree gap) {quote : UInt8} {value : List UInt8}
    (rest : List UInt8) (hquote : quote = doubleQuote ∨ quote = singleQuote) (hvalue : (0 : UInt8) ∉ value)
    (hend : quote ∉ value) :
    lexToken (renderGap gap ++ quote :: (value ++ quote :: rest))
      = (⟨.string, cInt value.length, value ++ quote :: rest⟩, rest) := by
  have hstart : quote ≠ 0 ∧ quote ≠ numberSign ∧ ¬ isBlank quote ∧ quote ≠ equalSign := by
    rcases hquote with rfl | rfl
    all_goals decide
  have hscan := stringLoop_append rest (show cInt 0 = 0 by decide) hvalue hend
  unfold lexToken
  rw [eatWhitespaces_gap hnul, eatWhitespaces_start hstart.1 hstart.2.1 hstart.2.2.1]
  dsimp only
  rw [if_neg hstart.1, if_neg hstart.2.2.2, if_pos hquote, hscan]
  dsimp only
  rw [if_neg (show peekChar (quote :: rest) ≠ 0 from hstart.1), Int.zero_add]
  rfl

/-- Lexing what is behind the last pair. -/
theorem lexToken_ending {file : WrittenFile} (hnul : file.NulFree) : lexToken file.ending = (.zero, []) := by
  have hend : eatWhitespaces false file.ending = [] := by
    unfold WrittenFile.ending
    rw [eatWhitespaces_gap hnul.after]
    cases hlast : file.lastComment with
    | none => rfl
    | some text =>
        show eatWhitespaces false (numberSign :: text) = []
        rw [eatWhitespaces, if_neg (by decide), if_neg (by decide), if_pos rfl]
        exact eatWhitespaces_lastComment (file.lastComment_line text hlast) (hnul.lastComment text hlast)
  unfold lexToken
  rw [hend]

end Lexing

/-! ## Reading a file -/

/-- What a call returns for a pair: the slices, whose lengths are converted to `int`. -/
def KeyValue.ReadsInt (kv : KeyValue) (key value : List UInt8) : Prop :=
  (kv.keyLen = cInt key.length ∧ kv.key.take key.length = key) ∧
    kv.valueLen = cInt value.length ∧ kv.value.take value.length = value

/-- The tokens of a pair, and then those of the rest. -/
theorem tokens_pair {w : WrittenPair} (hkey : GapNulFree w.beforeKey) (hequal : GapNulFree w.beforeEqual)
    (hvalue : GapNulFree w.afterEqual) (rest : List UInt8) :
    ∃ k v : List UInt8,
      tokens (w.render ++ rest) 0 = ⟨.identifier, cInt w.key.length, w.key ++ k⟩ ∧
      tokens (w.render ++ rest) 1 = ⟨.equal, 0, []⟩ ∧
      tokens (w.render ++ rest) 2 = ⟨.string, cInt w.value.length, w.value ++ v⟩ ∧
      ∀ i, tokens (w.render ++ rest) (i + 3) = tokens rest i := by
  have hlexString := lexToken_string hvalue rest w.quote_ok w.value_nul w.value_quote
  have hlexEqual := lexToken_equal hequal (renderGap w.afterEqual ++ w.quote :: (w.value ++ w.quote :: rest))
  have hlexKey := lexToken_key hkey w.letter_ok w.letters_ok
    (peekChar_gap w.beforeEqual (renderGap w.afterEqual ++ w.quote :: (w.value ++ w.quote :: rest)))
  have hrender : w.render ++ rest = renderGap w.beforeKey ++ (w.letter :: w.letters ++
      (renderGap w.beforeEqual ++ equalSign ::
        (renderGap w.afterEqual ++ w.quote :: (w.value ++ w.quote :: rest)))) := by
    simp [WrittenPair.render, WrittenPair.key]
  refine ⟨renderGap w.beforeEqual ++ equalSign :: (renderGap w.afterEqual ++ w.quote :: (w.value ++ w.quote :: rest)),
    w.quote :: rest, ?_, ?_, ?_, ?_⟩
  · show (lexToken (w.render ++ rest)).1 = _
    rw [hrender, hlexKey]
    rfl
  · show (lexToken (lexToken (w.render ++ rest)).2).1 = _
    rw [hrender, hlexKey, hlexEqual]
  · show (lexToken (lexToken (lexToken (w.render ++ rest)).2).2).1 = _
    rw [hrender, hlexKey, hlexEqual, hlexString]
  · intro i
    show Lookahead.items lexToken (lexToken (lexToken (lexToken (w.render ++ rest)).2).2).2 i = _
    rw [hrender, hlexKey, hlexEqual, hlexString]
    rfl

/-- Pairs are read, slice by slice, up to where the tokens end. -/
theorem parses_pairs {pairs : List WrittenPair}
    (hnul : ∀ w ∈ pairs, GapNulFree w.beforeKey ∧ GapNulFree w.beforeEqual ∧ GapNulFree w.afterEqual)
    {rest : List UInt8} (heof : (tokens rest 0).type = .eof) :
    ∃ kvs, Parses (initConfigParser (pairs.flatMap WrittenPair.render ++ rest)) kvs ∧
      List.Forall₂ (fun w kv => kv.ReadsInt w.key w.value) pairs kvs := by
  have hsees := sees_init (pairs.flatMap WrittenPair.render ++ rest)
  -- the later calls start in any state of the ring that has the rest of the tokens before it
  generalize initConfigParser (pairs.flatMap WrittenPair.render ++ rest) = parser at hsees ⊢
  induction pairs generalizing parser with
  | nil =>
      obtain ⟨parser', hcall⟩ := returns_eof hsees heof
      exact ⟨[], .done hcall, .nil⟩
  | cons w pairs ih =>
      obtain ⟨hkey, hequal, hvalue⟩ := hnul w List.mem_cons_self
      rw [List.flatMap_cons, List.append_assoc] at hsees
      obtain ⟨k, v, h0, h1, h2, hrest⟩ := tokens_pair hkey hequal hvalue (pairs.flatMap WrittenPair.render ++ rest)
      obtain ⟨parser', hcall, hsees'⟩ := returns_pair hsees (by rw [h0]) (by rw [h1]) (by rw [h2])
      rw [funext hrest] at hsees'
      obtain ⟨kvs, hparses, hall⟩ := ih (fun w' hw' => hnul w' (List.mem_cons_of_mem _ hw')) parser' hsees'
      refine ⟨_, .pair hcall hparses, .cons ?_ hall⟩
      refine ⟨⟨?_, ?_⟩, ?_, ?_⟩
      · rw [h0]
      · rw [h0, List.take_left]
      · rw [h2]
      · rw [h2, List.take_left]

/-- **A written file is read back**, slice by slice. -/
theorem parses_written {file : WrittenFile} (hnul : file.NulFree) :
    ∃ kvs, Parses (initConfigParser file.render) kvs ∧
      List.Forall₂ (fun w kv => kv.ReadsInt w.key w.value) file.pairs kvs := by
  apply parses_pairs hnul.pairs
  show (lexToken file.ending).1.type = .eof
  rw [lexToken_ending hnul]
  rfl

/-- **The parser reads back what a file says**, if its comments have no NUL byte and the length of every key and value
    is an `int`. -/
theorem readsBack_of_nulFree {file : WrittenFile} (hnul : file.NulFree)
    (hint : ∀ w ∈ file.pairs, (w.key.length : Int) ≤ intMax ∧ (w.value.length : Int) ≤ intMax) : file.ReadsBack := by
  obtain ⟨kvs, hparses, hall⟩ := parses_written hnul
  refine ⟨kvs, hparses, ?_⟩
  clear hparses hnul
  generalize file.pairs = pairs at hint hall ⊢
  induction hall with
  | nil => exact .nil
  | cons hread hall ih =>
      obtain ⟨⟨hkeyLen, hkey⟩, hvalueLen, hvalue⟩ := hread
      obtain ⟨hkeyInt, hvalueInt⟩ := hint _ List.mem_cons_self
      refine .cons ⟨⟨?_, hkey⟩, ?_, hvalue⟩ (ih (fun w hw => hint w (List.mem_cons_of_mem _ hw)))
      · rw [hkeyLen, cInt_eq (by omega) hkeyInt]
      · rw [hvalueLen, cInt_eq (by omega) hvalueInt]

/-! ## Three files -/

/-- A key of one letter, in single quotes, behind some spacing. -/
def pairA (beforeKey : List Spacing) (value : List UInt8) (hnul : (0 : UInt8) ∉ value) (hquote : singleQuote ∉ value) :
    WrittenPair where
  beforeKey := beforeKey
  letter := 97
  letters := []
  beforeEqual := []
  afterEqual := [.blank 32 rfl]
  quote := singleQuote
  value := value
  letter_ok := rfl
  letters_ok := by simp
  quote_ok := .inr rfl
  value_nul := hnul
  value_quote := hquote

/-- A key of several letters, in double quotes, with a comment in front of the equal sign. -/
def pairB : WrittenPair where
  beforeKey := [.blank newline rfl, .comment [doubleQuote] (by decide)]
  letter := 98
  letters := [95, 48]
  beforeEqual := [.comment [97, equalSign, singleQuote] (by decide)]
  afterEqual := []
  quote := doubleQuote
  value := [singleQuote, 99, numberSign]
  letter_ok := rfl
  letters_ok := List.forall_mem_cons.mpr ⟨rfl, List.forall_mem_singleton.mpr rfl⟩
  quote_ok := .inl rfl
  value_nul := by decide
  value_quote := by decide

/-- Values that look like syntax, between comments, and both kinds of quotes. -/
def syntaxFile : WrittenFile where
  pairs := [pairA [.comment [98, equalSign] (by decide)] [doubleQuote, numberSign, equalSign, newline] (by decide)
    (by decide), pairB]
  after := [.blank newline rfl]
  lastComment := some [singleQuote]
  lastComment_line := by decide

theorem gapNulFree_nil : GapNulFree [] := fun _ _ hmem => absurd hmem List.not_mem_nil

theorem gapNulFree_blank {c : UInt8} {hblank} {gap : List Spacing} (h : GapNulFree gap) :
    GapNulFree (.blank c hblank :: gap) := by
  intro text hline hmem
  rcases List.mem_cons.mp hmem with heq | hmem
  · cases heq
  · exact h text hline hmem

theorem gapNulFree_comment {text : List UInt8} {hline} {gap : List Spacing} (hnul : (0 : UInt8) ∉ text)
    (h : GapNulFree gap) : GapNulFree (.comment text hline :: gap) := by
  intro text' hline' hmem
  rcases List.mem_cons.mp hmem with heq | hmem
  · obtain ⟨rfl⟩ := heq
    exact hnul
  · exact h text' hline' hmem

theorem readsBack_syntaxFile : syntaxFile.ReadsBack := by
  apply readsBack_of_nulFree
  · refine ⟨List.forall_mem_cons.mpr ⟨⟨?_, gapNulFree_nil, ?_⟩, List.forall_mem_singleton.mpr ⟨?_, ?_, gapNulFree_nil⟩⟩,
      gapNulFree_blank gapNulFree_nil, by decide⟩
    · exact gapNulFree_comment (by decide) gapNulFree_nil
    · exact gapNulFree_blank gapNulFree_nil
    · exact gapNulFree_blank (gapNulFree_comment (by decide) gapNulFree_nil)
    · exact gapNulFree_comment (by decide) gapNulFree_nil
  · exact List.forall_mem_cons.mpr ⟨by decide, List.forall_mem_singleton.mpr (by decide)⟩

/-- A NUL byte in a comment. -/
def nulComment : WrittenFile where
  pairs := [pairA [.comment [0] (by decide)] [98] (by decide) (by decide)]
  after := []
  lastComment := none
  lastComment_line := by simp

/-- A file that gives one key a value. -/
def valueFile (value : List UInt8) (hnul : (0 : UInt8) ∉ value) (hquote : singleQuote ∉ value) : WrittenFile where
  pairs := [pairA [] value hnul hquote]
  after := []
  lastComment := none
  lastComment_line := by simp

theorem nulFree_valueFile (value : List UInt8) (hnul : (0 : UInt8) ∉ value) (hquote : singleQuote ∉ value) :
    (valueFile value hnul hquote).NulFree := by
  refine ⟨List.forall_mem_singleton.mpr ⟨gapNulFree_nil, gapNulFree_nil, gapNulFree_blank gapNulFree_nil⟩,
    gapNulFree_nil, fun text hmem => absurd hmem (by simp [valueFile])⟩

/-- Such a file is read back only if the length of the value is an `int`. -/
theorem int_of_readsBack {value : List UInt8} {hnul : (0 : UInt8) ∉ value} {hquote : singleQuote ∉ value}
    (h : (valueFile value hnul hquote).ReadsBack) : (value.length : Int) = cInt value.length := by
  obtain ⟨kvs, hparses, hall⟩ := h
  obtain ⟨kvs', hparses', hall'⟩ := parses_written (nulFree_valueFile value hnul hquote)
  obtain rfl := parses_unique hparses hparses'
  cases hall with
  | cons hread _ =>
      cases hall' with
      | cons hread' _ => exact hread.2.1.symm.trans hread'.2.1

/-- **Neither of two files is read back**: the first ends in its comment, and the length of the value of the second,
    two gibibytes, is no `int`. -/
theorem readsBack_counterexample :
    ¬ nulComment.ReadsBack ∧
    ¬ (valueFile (List.replicate 2147483648 120) (fun h => absurd (List.eq_of_mem_replicate h) (by decide))
        (fun h => absurd (List.eq_of_mem_replicate h) (by decide))).ReadsBack := by
  constructor
  · rintro ⟨kvs, hparses, hall⟩
    obtain ⟨parser', hcall⟩ := returns_eof (sees_init nulComment.render) rfl
    obtain rfl := parses_unique hparses (.done hcall)
    cases hall
  · intro h
    have hint := int_of_readsBack h
    rw [List.length_replicate] at hint
    exact absurd hint (by decide)

end Hand2
