import Hand2.Announce.Requests
import Hand2.Json.Strings

/-!
# `Json.Document` — what `cJSON_Parse` makes of a JSON document

A document is parsed to the tree that it denotes (`CJson.ofJson`): strings as the bytes of their text up to the first
NUL, numbers as their `valueint`. Nothing is made of a document that is nested too deep, or in which a string has half
of a surrogate pair. Every rule of the grammar has its lemma, the mutual ones stated over the buffer in front of the
text (`ValueParsed` to `MembersParsed`).
-/

namespace Hand2

namespace CJson

open Utf8 JsonText

/-- The string that code units spell, as a reader of its pointer sees it. -/
def unitsString (units : List Nat) : Option CString := (decodeUtf16 units).map fun text => CString.ofBytes (utf8 text)

/-- The tree of a value, with that much nesting to go. -/
def ofJson (strtod : Strtod) : Nat → Json → Option CJson
  | _,           .null           => some .null
  | _,           .bool b         => some (.bool b)
  | _,           .number digits  => some (.number (strtod.read (utf8 digits)).2.valueint)
  | _,           .string units   => (unitsString units).map .string
  | 0,           .array _        => none
  | 0,           .object _       => none
  | nesting + 1, .array items    => (items.mapM (ofJson strtod nesting)).map .array
  | nesting + 1, .object members =>
      (members.mapM fun m => (unitsString m.1).bind fun name => (ofJson strtod nesting m.2).map fun item =>
        (name, item)).map .object

/-- `strtod` reads the whole of a JSON number. -/
def ReadsNumbers (strtod : Strtod) : Prop := ∀ digits, Number digits → (strtod.read (utf8 digits)).1 = digits.length

/-- Every number of the value fits the buffer of `parse_number`. -/
def NumbersFit (v : Json) : Prop := ∀ digits, Json.Within (.number digits) v → digits.length ≤ 63

theorem NumbersFit.item {items : List Json} (h : NumbersFit (.array items)) {v : Json} (hv : v ∈ items) :
    NumbersFit v := fun digits hwithin => h digits (.item hv hwithin)

theorem NumbersFit.member {members : List (List Nat × Json)} (h : NumbersFit (.object members)) {m : List Nat × Json}
    (hm : m ∈ members) : NumbersFit m.2 := fun digits hwithin => h digits (.member hm hwithin)

@[simp] theorem numbersFit_number (digits : List Char) : NumbersFit (.number digits) ↔ digits.length ≤ 63 := by
  refine ⟨fun h => h digits .refl, ?_⟩
  rintro h _ ⟨⟩
  exact h

@[simp] theorem numbersFit_string (units : List Nat) : NumbersFit (.string units) := by
  rintro digits ⟨⟩

@[simp] theorem numbersFit_array (items : List Json) : NumbersFit (.array items) ↔ ∀ v ∈ items, NumbersFit v := by
  refine ⟨fun h v hv => h.item hv, ?_⟩
  rintro h digits (_ | ⟨hv, hwithin⟩)
  exact h _ hv digits hwithin

@[simp] theorem numbersFit_object (members : List (List Nat × Json)) :
    NumbersFit (.object members) ↔ ∀ m ∈ members, NumbersFit m.2 := by
  refine ⟨fun h m hm => h.member hm, ?_⟩
  rintro h digits (_ | _ | ⟨hm, hwithin⟩)
  exact h _ hm digits hwithin

/-! ## Whitespace -/

/-- The text is at its end or begins with a character that no whitespace is skipped at. -/
def Solid (text : List Char) : Prop := text = [] ∨ ∃ c rest, text = c :: rest ∧ 32 < c.toNat ∧ c.toNat < 128

/-- What stands behind an element. -/
def Ends (text : List Char) : Prop := text = [] ∨ ∃ c rest, text = c :: rest ∧ (c = ',' ∨ c = ']' ∨ c = '}')

theorem Ends.solid {text : List Char} (h : Ends text) : Solid text := by
  rcases h with rfl | ⟨c, rest, rfl, rfl | rfl | rfl⟩
  · exact .inl rfl
  · exact .inr ⟨_, _, rfl, by decide, by decide⟩
  · exact .inr ⟨_, _, rfl, by decide, by decide⟩
  · exact .inr ⟨_, _, rfl, by decide, by decide⟩

theorem utf8_ws {w : List Char} (h : Ws w) : ∀ b ∈ utf8 w, b ≤ 32 := by
  intro b hb
  obtain ⟨c, hc, hbc⟩ := List.mem_flatMap.mp hb
  rcases h c hc with rfl | rfl | rfl | rfl
  all_goals
    obtain rfl := List.mem_singleton.mp hbc
    decide

theorem dropWhile_blanks {blanks : List UInt8} (h : ∀ b ∈ blanks, b ≤ 32) (buffer : ParseBuffer) :
    (blanks ++ buffer).dropWhile (· ≤ 32) = buffer.dropWhile (· ≤ 32) := by
  induction blanks with
  | nil => rfl
  | cons b blanks ih =>
      rw [List.cons_append, List.dropWhile_cons_of_pos (by simpa using h b List.mem_cons_self)]
      exact ih fun c hc => h c (List.mem_cons_of_mem _ hc)

/-- Whitespace in front of the end or of another character is skipped, and no more. -/
theorem skip_solid {w text : List Char} (hw : Ws w) (h : Solid text) :
    bufferSkipWhitespace (bufferOf (w ++ text)) = bufferOf text := by
  have hblank := utf8_ws hw
  rw [bufferOf_append]
  unfold bufferSkipWhitespace
  rw [dropWhile_blanks hblank]
  rcases h with rfl | ⟨c, rest, rfl, hlow, hhigh⟩
  · -- the terminator counts as a blank, but it is the last byte
    show (utf8 w ++ [0]).drop ((utf8 w ++ [0]).length - 1) = [0]
    rw [List.length_append, List.length_singleton, Nat.add_sub_cancel, List.drop_left]
  · have hbyte : ¬ c.toNat.toUInt8 ≤ 32 := by
      rw [UInt8.le_iff_toNat_le, Nat.toUInt8_eq, UInt8.toNat_ofNat']
      have : (32 : UInt8).toNat = 32 := rfl
      omega
    rw [bufferOf_cons, utf8EncodeChar_ascii hhigh, List.singleton_append,
      List.dropWhile_cons_of_neg (by simpa using hbyte)]

theorem skip_idem {text : List Char} (h : Solid text) : bufferSkipWhitespace (bufferOf text) = bufferOf text :=
  skip_solid Ws.nil h

/-- A value begins with a character that no whitespace is skipped at. -/
theorem value_solid {cs : List Char} {v : Json} {rest : List Char} (h : Value cs v rest) : Solid cs := by
  cases h with
  | number hnumber =>
      obtain ⟨c, ds, rfl, hc⟩ := hnumber.head
      refine .inr ⟨c, _, rfl, ?_⟩
      rcases hc with rfl | hc
      · decide
      · have hlow : 48 ≤ c.toNat := by
          simp only [Char.isDigit, Bool.and_eq_true, decide_eq_true_eq] at hc
          exact hc.1
        have hhigh : c.toNat ≤ 57 := by
          simp only [Char.isDigit, Bool.and_eq_true, decide_eq_true_eq] at hc
          exact hc.2
        omega
  | _ => exact .inr ⟨_, _, rfl, by decide, by decide⟩

/-! ## Numbers -/

/-- A character of a number. -/
def NumberChar (c : Char) : Prop := c.isDigit = true ∨ c ∈ ['+', '-', 'e', 'E', '.']

theorem digits_chars {ds : List Char} (h : Digits ds) : ∀ c ∈ ds, NumberChar c := fun c hc => .inl (h.2 c hc)

theorem whole_chars {ds : List Char} (h : Whole ds) : ∀ c ∈ ds, NumberChar c := by
  cases h with
  | digit hd =>
      intro c hc
      obtain rfl := List.mem_singleton.mp hc
      exact .inl hd
  | digits hd _ hds => exact List.forall_mem_cons.mpr ⟨.inl hd, digits_chars hds⟩

theorem fraction_chars {ds : List Char} (h : Fraction ds) : ∀ c ∈ ds, NumberChar c := by
  cases h with
  | none => simp
  | digits hds => exact List.forall_mem_cons.mpr ⟨.inr (by decide), digits_chars hds⟩

theorem exponent_chars {ds : List Char} (h : Exponent ds) : ∀ c ∈ ds, NumberChar c := by
  cases h with
  | none => simp
  | digits he hsign hds =>
      refine List.forall_mem_cons.mpr ⟨?_, ?_⟩
      · rcases he with rfl | rfl
        · exact .inr (by decide)
        · exact .inr (by decide)
      · rcases hsign with rfl | rfl | rfl
        · exact digits_chars hds
        · exact List.forall_mem_cons.mpr ⟨.inr (by decide), digits_chars hds⟩
        · exact List.forall_mem_cons.mpr ⟨.inr (by decide), digits_chars hds⟩

theorem number_chars {digits : List Char} (h : Number digits) : ∀ c ∈ digits, NumberChar c := by
  cases h with
  | positive hwhole hfraction hexponent =>
      exact List.forall_mem_append.mpr
        ⟨List.forall_mem_append.mpr ⟨whole_chars hwhole, fraction_chars hfraction⟩, exponent_chars hexponent⟩
  | negative hwhole hfraction hexponent =>
      exact List.forall_mem_cons.mpr ⟨.inr (by decide), List.forall_mem_append.mpr
        ⟨List.forall_mem_append.mpr ⟨whole_chars hwhole, fraction_chars hfraction⟩, exponent_chars hexponent⟩⟩

/-- Such a character is a byte that `parse_number` copies. -/
theorem numberChar_byte {c : Char} (h : NumberChar c) :
    ∃ b, String.utf8EncodeChar c = [b] ∧ isNumberChar b = true := by
  have hsmall : c.toNat < 128 := by
    rcases h with hd | hmem
    · simp only [Char.isDigit, Bool.and_eq_true, decide_eq_true_eq] at hd
      have : c.toNat ≤ 57 := hd.2
      omega
    · simp only [List.mem_cons, List.not_mem_nil, or_false] at hmem
      rcases hmem with rfl | rfl | rfl | rfl | rfl <;> decide
  have hall : ∀ n < 128, ((Char.ofNat n).isDigit = true ∨ Char.ofNat n ∈ ['+', '-', 'e', 'E', '.']) →
      isNumberChar n.toUInt8 = true := by decide +kernel
  refine ⟨c.toNat.toUInt8, utf8EncodeChar_ascii hsmall, hall _ hsmall ?_⟩
  rwa [Char.ofNat_toNat]

theorem utf8_number {digits : List Char} (h : ∀ c ∈ digits, NumberChar c) :
    (utf8 digits).length = digits.length ∧ ∀ b ∈ utf8 digits, isNumberChar b = true := by
  induction digits with
  | nil => simp
  | cons c digits ih =>
      obtain ⟨hc, hrest⟩ := List.forall_mem_cons.mp h
      obtain ⟨hlen, hbytes⟩ := ih hrest
      obtain ⟨b, hb, hnumber⟩ := numberChar_byte hc
      rw [utf8_cons, hb, List.singleton_append]
      exact ⟨by rw [List.length_cons, List.length_cons, hlen], List.forall_mem_cons.mpr ⟨hnumber, hbytes⟩⟩

/-- What stands behind a number that ends there. -/
def NumberEnds (text : List Char) : Prop := ∃ b behind, bufferOf text = b :: behind ∧ isNumberChar b = false

theorem numberEnds_of_ends {w text : List Char} (hw : Ws w) (h : Ends text) : NumberEnds (w ++ text) := by
  cases w with
  | nil =>
      rcases h with rfl | ⟨c, rest, rfl, rfl | rfl | rfl⟩
      · exact ⟨0, [], rfl, by decide⟩
      · exact ⟨44, _, rfl, by decide⟩
      · exact ⟨93, _, rfl, by decide⟩
      · exact ⟨125, _, rfl, by decide⟩
  | cons c w =>
      rcases hw c List.mem_cons_self with rfl | rfl | rfl | rfl
      · exact ⟨32, _, rfl, by decide⟩
      · exact ⟨10, _, rfl, by decide⟩
      · exact ⟨13, _, rfl, by decide⟩
      · exact ⟨9, _, rfl, by decide⟩

/-- **`parse_number` on a JSON number** that fits reads all of it. -/
theorem parseNumber_number {strtod : Strtod} (hstrtod : ReadsNumbers strtod) {digits rest : List Char}
    (h : Number digits) (hfit : digits.length ≤ 63) (hends : NumberEnds rest) :
    parseNumber strtod (bufferOf (digits ++ rest))
      = .ok (some (.number (strtod.read (utf8 digits)).2.valueint, bufferOf rest)) := by
  obtain ⟨hlen, hnumber⟩ := utf8_number (number_chars h)
  obtain ⟨b, behind, hbuffer, hb⟩ := hends
  have hcopied : ((bufferOf (digits ++ rest)).take 63).takeWhile isNumberChar = utf8 digits := by
    rw [bufferOf_append, List.take_append, List.take_of_length_le (by omega), hbuffer]
    rw [List.takeWhile_append_of_pos hnumber]
    cases hroom : 63 - (utf8 digits).length with
    | zero => simp
    | succ n => rw [List.take_succ_cons, List.takeWhile_cons_of_neg (by simp [hb]), List.append_nil]
  have hread := hstrtod digits h
  obtain ⟨c, ds, hdigits, -⟩ := h.head
  have hpos : digits.length ≠ 0 := by
    rw [hdigits, List.length_cons]
    omega
  unfold parseNumber
  rw [hcopied]
  dsimp only
  rw [hread, if_neg hpos, bufferOf_append, ← hlen, List.drop_left]

/-! ## Values -/

section Values

variable {strtod : Strtod} {nesting : Nat}

/-- A buffer that begins with none of the letters of the literals. -/
theorem parseValue_head {c : UInt8} {behind : ParseBuffer} (hnull : c ≠ 110) (hfalse : c ≠ 102) (htrue : c ≠ 116) :
    parseValue strtod nesting (c :: behind) =
      if c = quote then do
        let string ← parseString (c :: behind)
        .ok (string.map fun s => (.string (CString.ofBytes s.1), s.2))
      else if c = 45 ∨ isDigit c then parseNumber strtod (c :: behind)
      else if c = openBracket then
        match nesting with
        | 0           => .ok none
        | nesting + 1 => parseArray (parseValue strtod nesting) (c :: behind)
      else if c = openBrace then
        match nesting with
        | 0           => .ok none
        | nesting + 1 => parseObject (parseValue strtod nesting) (c :: behind)
      else .ok none := by
  have hother : ∀ n (literal : List UInt8), literal.head? ≠ some c → 0 < n → (c :: behind).take n ≠ literal := by
    rintro n literal hhead hn rfl
    obtain ⟨m, rfl⟩ := Nat.exists_eq_add_of_le' (show 1 ≤ n by omega)
    exact hhead rfl
  have hnull' := hother 4 nullBytes (by simpa [nullBytes] using Ne.symm hnull) (by omega)
  have hfalse' := hother 5 falseBytes (by simpa [falseBytes] using Ne.symm hfalse) (by omega)
  have htrue' := hother 4 trueBytes (by simpa [trueBytes] using Ne.symm htrue) (by omega)
  rw [parseValue.eq_def]
  refine (if_neg hnull').trans ((if_neg hfalse').trans ((if_neg htrue').trans ?_))
  cases nesting <;> rfl

/-- What a function of the parser returns for a part of a document: the tree, and the buffer behind it. -/
def Gives {α : Type} (result : Except ParseFault (Parsed α)) (tree : Option α) (rest : List Char) : Prop :=
  result = .ok (tree.map fun t => (t, bufferOf rest))

/-- A value is parsed to its tree. -/
def ValueParsed (strtod : Strtod) (cs : List Char) (v : Json) (rest : List Char) : Prop :=
  ∀ nesting, NumbersFit v → NumberEnds rest →
    Gives (parseValue strtod nesting (bufferOf cs)) (ofJson strtod nesting v) rest

/-- An element, with the whitespace around it. -/
def ElementParsed (strtod : Strtod) (cs : List Char) (v : Json) (rest : List Char) : Prop :=
  ∀ nesting, NumbersFit v → Ends rest → ∃ rest',
    Gives (parseValue strtod nesting (bufferSkipWhitespace (bufferOf cs))) (ofJson strtod nesting v) rest' ∧
      bufferSkipWhitespace (bufferOf rest') = bufferOf rest

/-- The elements of an array, up to its bracket. -/
def ElementsParsed (strtod : Strtod) (cs : List Char) (items : List Json) (rest : List Char) : Prop :=
  ∀ nesting fuel, (∀ v ∈ items, NumbersFit v) → (∃ behind, rest = ']' :: behind) →
    (bufferSkipWhitespace (bufferOf cs)).length ≤ fuel →
    Gives (arrayLoop (parseValue strtod nesting) fuel (bufferOf cs)) (items.mapM (ofJson strtod nesting)) rest

/-- The tree of a member. -/
def memberTree (strtod : Strtod) (nesting : Nat) (m : List Nat × Json) : Option (CString × CJson) :=
  (unitsString m.1).bind fun name => (ofJson strtod nesting m.2).map fun item => (name, item)

/-- A member: its name, and then its element. -/
def MemberParsed (strtod : Strtod) (cs : List Char) (m : List Nat × Json) (rest : List Char) : Prop :=
  ∃ afterName value,
    Gives (parseString (bufferSkipWhitespace (bufferOf cs))) ((decodeUtf16 m.1).map fun text => utf8 text ++ [0])
      afterName ∧
    bufferSkipWhitespace (bufferOf afterName) = bufferOf (':' :: value) ∧ ElementParsed strtod value m.2 rest

/-- The members of an object, up to its brace. -/
def MembersParsed (strtod : Strtod) (cs : List Char) (members : List (List Nat × Json)) (rest : List Char) : Prop :=
  ∀ nesting fuel, (∀ m ∈ members, NumbersFit m.2) → (∃ behind, rest = '}' :: behind) →
    (bufferSkipWhitespace (bufferOf cs)).length ≤ fuel →
    Gives (objectLoop (parseValue strtod nesting) fuel (bufferOf cs)) (members.mapM (memberTree strtod nesting)) rest

theorem ends_bracket {rest : List Char} (h : ∃ behind, rest = ']' :: behind) : Ends rest := by
  obtain ⟨behind, rfl⟩ := h
  exact .inr ⟨_, _, rfl, .inr (.inl rfl)⟩

theorem ends_brace {rest : List Char} (h : ∃ behind, rest = '}' :: behind) : Ends rest := by
  obtain ⟨behind, rfl⟩ := h
  exact .inr ⟨_, _, rfl, .inr (.inr rfl)⟩

theorem ends_comma (rest : List Char) : Ends (',' :: rest) := .inr ⟨_, _, rfl, .inl rfl⟩

theorem element_parsed {w w' cs rest : List Char} {v : Json} (hw : Ws w) (hvalue : Value cs v (w' ++ rest))
    (hw' : Ws w') (ih : ValueParsed strtod cs v (w' ++ rest)) : ElementParsed strtod (w ++ cs) v rest := by
  intro nesting hfit hends
  refine ⟨w' ++ rest, ?_, skip_solid hw' hends.solid⟩
  rw [skip_solid hw (value_solid hvalue)]
  exact ih nesting hfit (numberEnds_of_ends hw' hends)

theorem length_skip (text : List Char) : (bufferSkipWhitespace (bufferOf text)).length ≤ (bufferOf text).length :=
  (terminated_bufferOf text).skipWhitespace.2

/-- A buffer is not empty, so a loop has a round. -/
theorem exists_fuel {cs : List Char} {fuel : Nat} (h : (bufferSkipWhitespace (bufferOf cs)).length ≤ fuel) :
    ∃ n, fuel = n + 1 := by
  have := List.length_pos_iff.mpr (terminated_bufferOf cs).skipWhitespace.1.ne_nil
  exact Nat.exists_eq_add_of_le' (show 1 ≤ fuel by omega)

/-- Something is read of a value. -/
theorem length_of_gives {cs rest : List Char} {tree : CJson}
    (h : Gives (parseValue strtod nesting (bufferSkipWhitespace (bufferOf cs))) (some tree) rest) :
    (bufferOf rest).length < (bufferSkipWhitespace (bufferOf cs)).length := by
  obtain ⟨result, hresult, hshrinks⟩ := parseValue_safe strtod nesting _ (terminated_bufferOf cs).skipWhitespace.1
  rw [Gives, hresult] at h
  exact (hshrinks tree _ (Except.ok.inj h)).2

theorem head_bufferOf (c : Char) (rest : List Char) (b : UInt8) (h : String.utf8EncodeChar c = [b]) :
    (bufferOf (c :: rest)).head? = some b ∧ (bufferOf (c :: rest)).drop 1 = bufferOf rest := by
  rw [bufferOf_cons, h]
  exact ⟨rfl, rfl⟩

/-- The last element. -/
theorem elements_last {cs rest : List Char} {v : Json} (ih : ElementParsed strtod cs v rest) :
    ElementsParsed strtod cs [v] rest := by
  intro nesting fuel hfit hrest hfuel
  obtain ⟨n, rfl⟩ := exists_fuel hfuel
  obtain ⟨rest', hvalue, hskip⟩ := ih nesting (hfit v List.mem_cons_self) (ends_bracket hrest)
  obtain ⟨behind, rfl⟩ := hrest
  have hhead := (head_bufferOf ']' behind closeBracket rfl).1
  unfold Gives at hvalue ⊢
  rw [arrayLoop, hvalue, Loops.ok_bind]
  cases htree : ofJson strtod nesting v with
  | none => simp [htree]
  | some tree =>
      simp only [Option.map_some]
      rw [hskip, if_neg (by rw [hhead]; decide)]
      simp [htree]

/-- An element and the rest. -/
theorem elements_more {cs cs' rest : List Char} {v : Json} {items : List Json}
    (ih : ElementParsed strtod cs v (',' :: cs')) (ihs : ElementsParsed strtod cs' items rest) :
    ElementsParsed strtod cs (v :: items) rest := by
  intro nesting fuel hfit hrest hfuel
  obtain ⟨n, rfl⟩ := exists_fuel hfuel
  obtain ⟨rest', hvalue, hskip⟩ := ih nesting (hfit v List.mem_cons_self) (ends_comma cs')
  obtain ⟨hhead, hdrop⟩ := head_bufferOf ',' cs' comma rfl
  have hvalue' := hvalue
  unfold Gives at hvalue ⊢
  rw [arrayLoop, hvalue, Loops.ok_bind]
  cases htree : ofJson strtod nesting v with
  | none => simp [htree]
  | some tree =>
      rw [htree] at hvalue'
      have hshorter := length_of_gives hvalue'
      have hskipLe := length_skip rest'
      have hcs' : (bufferOf (',' :: cs')).length = (bufferOf cs').length + 1 := by
        rw [bufferOf_cons]
        rfl
      rw [hskip, hcs'] at hskipLe
      have hrec := ihs nesting n (fun w hw => hfit w (List.mem_cons_of_mem _ hw)) hrest
        (Nat.le_trans (length_skip cs') (by omega))
      simp only [Option.map_some]
      rw [hskip, if_pos hhead, hdrop]
      unfold Gives at hrec
      rw [hrec, Loops.ok_bind]
      cases hitems : items.mapM (ofJson strtod nesting) <;> simp [htree, hitems]

theorem member_parsed {w w' cs cs' rest : List Char} {units : List Nat} {v : Json} (hw : Ws w)
    (hname : Chars cs units (w' ++ ':' :: cs')) (hw' : Ws w') (ih : ElementParsed strtod cs' v rest) :
    MemberParsed strtod (w ++ JsonText.quote :: cs) (units, v) rest := by
  refine ⟨w' ++ ':' :: cs', cs', ?_, ?_, ih⟩
  · rw [skip_solid hw (.inr ⟨_, _, rfl, by decide, by decide⟩)]
    unfold Gives
    rw [parseString_chars hname, Option.map_map]
    rfl
  · exact skip_solid hw' (.inr ⟨_, _, rfl, by decide, by decide⟩)

/-- The name of a member, as a reader of its pointer sees it. -/
theorem unitsString_output {units : List Nat} {text : List Char} (h : decodeUtf16 units = some text) :
    unitsString units = some (CString.ofBytes (utf8 text ++ [0])) := by
  rw [unitsString, h, Option.map_some, CString.ofBytes_append_zero]

/-- One round of the loop over the members. -/
theorem objectLoop_member (nesting : Nat) {cs rest : List Char} {m : List Nat × Json}
    (ih : MemberParsed strtod cs m rest) (hfit : NumbersFit m.2) (hends : Ends rest) (n : Nat) :
    (memberTree strtod nesting m = none ∧ objectLoop (parseValue strtod nesting) (n + 1) (bufferOf cs) = .ok none) ∨
      ∃ first, memberTree strtod nesting m = some first ∧
        (bufferOf rest).length < (bufferSkipWhitespace (bufferOf cs)).length ∧
        objectLoop (parseValue strtod nesting) (n + 1) (bufferOf cs) =
          if (bufferOf rest).head? = some comma then do
            let members ← objectLoop (parseValue strtod nesting) n ((bufferOf rest).drop 1)
            .ok (members.map fun members => (first :: members.1, members.2))
          else .ok (some ([first], bufferOf rest)) := by
  obtain ⟨afterName, value, hname, hcolon, helement⟩ := ih
  obtain ⟨hhead, hdrop⟩ := head_bufferOf ':' value colon rfl
  unfold Gives at hname
  rw [objectLoop, hname, Loops.ok_bind]
  cases hdecode : decodeUtf16 m.1 with
  | none => exact .inl ⟨by simp [memberTree, unitsString, hdecode], rfl⟩
  | some text =>
      obtain ⟨rest', hvalue, hskip⟩ := helement nesting hfit hends
      have hvalue' := hvalue
      unfold Gives at hvalue
      simp only [Option.map_some]
      rw [hcolon, if_neg (not_not.mpr hhead), hdrop, hvalue, Loops.ok_bind]
      cases htree : ofJson strtod nesting m.2 with
      | none => exact .inl ⟨by simp [memberTree, htree], rfl⟩
      | some tree =>
          rw [htree] at hvalue'
          -- what is left is shorter: something is read of the name, and of the value
          obtain ⟨result, hresult, hshrinks⟩ := parseString_safe _ (terminated_bufferOf cs).skipWhitespace.1
          rw [hname, hdecode] at hresult
          have hnameLt := (hshrinks _ _ (Except.ok.inj hresult).symm).2
          have hcolonLe := length_skip afterName
          have hvalueLen : (bufferOf (':' :: value)).length = (bufferOf value).length + 1 := by
            rw [bufferOf_cons]
            rfl
          rw [hcolon, hvalueLen] at hcolonLe
          have hvalueSkip := length_skip value
          have hvalueLt := length_of_gives hvalue'
          have hrestLe := length_skip rest'
          rw [hskip] at hrestLe
          refine .inr ⟨(CString.ofBytes (utf8 text ++ [0]), tree), ?_, by omega, ?_⟩
          · simp [memberTree, unitsString_output hdecode, htree]
          · simp only [Option.map_some]
            rw [hskip]

theorem members_last {cs rest : List Char} {m : List Nat × Json} (ih : MemberParsed strtod cs m rest) :
    MembersParsed strtod cs [m] rest := by
  intro nesting fuel hfit hrest hfuel
  obtain ⟨n, rfl⟩ := exists_fuel hfuel
  unfold Gives
  rcases objectLoop_member nesting ih (hfit m List.mem_cons_self) (ends_brace hrest) n with
    ⟨htree, hrun⟩ | ⟨first, htree, -, hrun⟩
  · rw [hrun]
    simp [htree]
  · obtain ⟨behind, rfl⟩ := hrest
    rw [hrun, if_neg (by rw [(head_bufferOf '}' behind closeBrace rfl).1]; decide)]
    simp [htree]

theorem members_more {cs cs' rest : List Char} {m : List Nat × Json} {members : List (List Nat × Json)}
    (ih : MemberParsed strtod cs m (',' :: cs')) (ihs : MembersParsed strtod cs' members rest) :
    MembersParsed strtod cs (m :: members) rest := by
  intro nesting fuel hfit hrest hfuel
  obtain ⟨n, rfl⟩ := exists_fuel hfuel
  obtain ⟨hhead, hdrop⟩ := head_bufferOf ',' cs' comma rfl
  unfold Gives
  rcases objectLoop_member nesting ih (hfit m List.mem_cons_self) (ends_comma cs') n with
    ⟨htree, hrun⟩ | ⟨first, htree, hshorter, hrun⟩
  · rw [hrun]
    simp [htree]
  · have hcs' : (bufferOf (',' :: cs')).length = (bufferOf cs').length + 1 := by
      rw [bufferOf_cons]
      rfl
    have hrec := ihs nesting n (fun w hw => hfit w (List.mem_cons_of_mem _ hw)) hrest
      (Nat.le_trans (length_skip cs') (by omega))
    unfold Gives at hrec
    rw [hrun, if_pos hhead, hdrop, hrec, Loops.ok_bind]
    cases hmembers : members.mapM (memberTree strtod nesting) <;> simp [htree, hmembers]

/-! ## The rules for a value -/

theorem value_null {rest : List Char} : ValueParsed strtod ('n' :: 'u' :: 'l' :: 'l' :: rest) .null rest := by
  intro nesting _ _
  have hbuffer : bufferOf ('n' :: 'u' :: 'l' :: 'l' :: rest) = nullBytes ++ bufferOf rest := rfl
  have htake : (nullBytes ++ bufferOf rest).take 4 = nullBytes := rfl
  rw [Gives, hbuffer, parseValue.eq_def, if_pos htake]
  simp [ofJson, nullBytes]

theorem value_true {rest : List Char} : ValueParsed strtod ('t' :: 'r' :: 'u' :: 'e' :: rest) (.bool true) rest := by
  intro nesting _ _
  have hbuffer : bufferOf ('t' :: 'r' :: 'u' :: 'e' :: rest) = trueBytes ++ bufferOf rest := rfl
  have htake : (trueBytes ++ bufferOf rest).take 4 = trueBytes := rfl
  rw [Gives, hbuffer, parseValue.eq_def, if_neg (by simp [trueBytes, nullBytes]),
    if_neg (by simp [trueBytes, falseBytes]), if_pos htake]
  simp [ofJson, trueBytes]

theorem value_false {rest : List Char} :
    ValueParsed strtod ('f' :: 'a' :: 'l' :: 's' :: 'e' :: rest) (.bool false) rest := by
  intro nesting _ _
  have hbuffer : bufferOf ('f' :: 'a' :: 'l' :: 's' :: 'e' :: rest) = falseBytes ++ bufferOf rest := rfl
  have htake : (falseBytes ++ bufferOf rest).take 5 = falseBytes := rfl
  rw [Gives, hbuffer, parseValue.eq_def, if_neg (by simp [falseBytes, nullBytes]), if_pos htake]
  simp [ofJson, falseBytes]

theorem value_string {cs rest : List Char} {units : List Nat} (h : Chars cs units rest) :
    ValueParsed strtod (JsonText.quote :: cs) (.string units) rest := by
  intro nesting _ _
  have hparse := parseString_chars h
  have hbuffer : bufferOf (JsonText.quote :: cs) = quote :: bufferOf cs := by
    rw [bufferOf_cons]
    rfl
  rw [hbuffer] at hparse
  rw [Gives, hbuffer, parseValue_head (by decide) (by decide) (by decide), if_pos rfl, hparse, Loops.ok_bind, ofJson]
  cases hdecode : decodeUtf16 units with
  | none => simp [unitsString, hdecode]
  | some text => simp [unitsString_output hdecode]

theorem value_number (hstrtod : ReadsNumbers strtod) {digits rest : List Char} (h : Number digits) :
    ValueParsed strtod (digits ++ rest) (.number digits) rest := by
  intro nesting hfit hends
  have hparse := parseNumber_number hstrtod h (hfit digits .refl) hends
  obtain ⟨c, ds, rfl, hc⟩ := h.head
  obtain ⟨b, hb, -⟩ := numberChar_byte (c := c) (hc.elim (fun h => .inr (by rw [h]; decide)) .inl)
  have hfirst : b = 45 ∨ isDigit b = true := by
    rcases hc with rfl | hdigit
    · exact .inl (List.singleton_injective hb.symm)
    · have hsmall : c.toNat < 128 := by
        simp only [Char.isDigit, Bool.and_eq_true, decide_eq_true_eq] at hdigit
        have : c.toNat ≤ 57 := hdigit.2
        omega
      have hall : ∀ n < 128, (Char.ofNat n).isDigit = true → isDigit n.toUInt8 = true := by decide +kernel
      rw [utf8EncodeChar_ascii hsmall] at hb
      rw [← List.singleton_injective hb]
      exact .inr (hall _ hsmall (by rwa [Char.ofNat_toNat]))
  have hbuffer : bufferOf (c :: ds ++ rest) = b :: bufferOf (ds ++ rest) := by
    rw [List.cons_append, bufferOf_cons, hb]
    rfl
  have hletter : ∀ a : UInt8, a ≠ 45 → isDigit a = false → b ≠ a := by
    rintro a hminus hdigit rfl
    rcases hfirst with h | h
    · exact hminus h
    · rw [hdigit] at h
      cases h
  rw [hbuffer] at hparse
  rw [Gives, hbuffer, parseValue_head (hletter 110 (by decide) (by decide)) (hletter 102 (by decide) (by decide))
    (hletter 116 (by decide) (by decide)), if_neg (hletter quote (by decide) (by decide)), if_pos hfirst, hparse,
    ofJson]
  rfl

/-- A buffer in front of a bracket. -/
theorem parseValue_bracket {nesting : Nat} (behind : ParseBuffer) :
    parseValue strtod nesting (openBracket :: behind) = match nesting with
      | 0           => .ok none
      | nesting + 1 => parseArray (parseValue strtod nesting) (openBracket :: behind) := by
  rw [parseValue_head (by decide) (by decide) (by decide), if_neg (by decide), if_neg (by decide), if_pos rfl]

/-- A buffer in front of a brace. -/
theorem parseValue_brace {nesting : Nat} (behind : ParseBuffer) :
    parseValue strtod nesting (openBrace :: behind) = match nesting with
      | 0           => .ok none
      | nesting + 1 => parseObject (parseValue strtod nesting) (openBrace :: behind) := by
  rw [parseValue_head (by decide) (by decide) (by decide), if_neg (by decide), if_neg (by decide), if_neg (by decide),
    if_pos rfl]

theorem value_emptyArray {w rest : List Char} (hw : Ws w) :
    ValueParsed strtod ('[' :: (w ++ ']' :: rest)) (.array []) rest := by
  intro nesting _ _
  obtain ⟨hhead, hdrop⟩ := head_bufferOf ']' rest closeBracket rfl
  have hbuffer : bufferOf ('[' :: (w ++ ']' :: rest)) = openBracket :: bufferOf (w ++ ']' :: rest) := by
    rw [bufferOf_cons]
    rfl
  rw [Gives, hbuffer, parseValue_bracket]
  cases nesting with
  | zero => rfl
  | succ nesting =>
      dsimp only
      unfold parseArray
      rw [List.drop_one, List.tail_cons, skip_solid hw (.inr ⟨_, _, rfl, by decide, by decide⟩)]
      dsimp only
      rw [if_pos hhead, hdrop]
      rfl

theorem value_emptyObject {w rest : List Char} (hw : Ws w) :
    ValueParsed strtod ('{' :: (w ++ '}' :: rest)) (.object []) rest := by
  intro nesting _ _
  obtain ⟨hhead, hdrop⟩ := head_bufferOf '}' rest closeBrace rfl
  have hbuffer : bufferOf ('{' :: (w ++ '}' :: rest)) = openBrace :: bufferOf (w ++ '}' :: rest) := by
    rw [bufferOf_cons]
    rfl
  rw [Gives, hbuffer, parseValue_brace]
  cases nesting with
  | zero => rfl
  | succ nesting =>
      dsimp only
      unfold parseObject
      rw [List.drop_one, List.tail_cons, skip_solid hw (.inr ⟨_, _, rfl, by decide, by decide⟩)]
      dsimp only
      rw [if_pos hhead, hdrop]
      rfl

/-- A value does not begin with a closing bracket. -/
theorem value_start {cs : List Char} {v : Json} {rest : List Char} (h : Value cs v rest) :
    (bufferOf cs).head? ≠ some closeBracket := by
  cases h with
  | number hnumber =>
      obtain ⟨c, ds, rfl, hc⟩ := hnumber.head
      obtain ⟨b, hb, hnumberChar⟩ := numberChar_byte (c := c) (hc.elim (fun h => .inr (by rw [h]; decide)) .inl)
      rw [List.cons_append, (head_bufferOf c _ b hb).1]
      intro heq
      rw [Option.some.inj heq] at hnumberChar
      exact absurd hnumberChar (by decide)
  | null       => exact fun h => absurd ((head_bufferOf 'n' _ 110 rfl).1.symm.trans h) (by decide)
  | true       => exact fun h => absurd ((head_bufferOf 't' _ 116 rfl).1.symm.trans h) (by decide)
  | false      => exact fun h => absurd ((head_bufferOf 'f' _ 102 rfl).1.symm.trans h) (by decide)
  | string     => exact fun h => absurd ((head_bufferOf JsonText.quote _ 34 rfl).1.symm.trans h) (by decide)
  | emptyArray => exact fun h => absurd ((head_bufferOf '[' _ 91 rfl).1.symm.trans h) (by decide)
  | array      => exact fun h => absurd ((head_bufferOf '[' _ 91 rfl).1.symm.trans h) (by decide)
  | emptyObject => exact fun h => absurd ((head_bufferOf '{' _ 123 rfl).1.symm.trans h) (by decide)
  | object     => exact fun h => absurd ((head_bufferOf '{' _ 123 rfl).1.symm.trans h) (by decide)

theorem elements_start {cs : List Char} {items : List Json} {rest : List Char} (h : Elements cs items rest) :
    ∃ cs', bufferSkipWhitespace (bufferOf cs) = bufferOf cs' ∧ bufferSkipWhitespace (bufferOf cs') = bufferOf cs' ∧
      (bufferOf cs').head? ≠ some closeBracket := by
  have helement : ∀ {v : Json} {rest : List Char}, Element cs v rest → ∃ cs',
      bufferSkipWhitespace (bufferOf cs) = bufferOf cs' ∧ bufferSkipWhitespace (bufferOf cs') = bufferOf cs' ∧
        (bufferOf cs').head? ≠ some closeBracket := by
    rintro v rest ⟨w, w', hw, hvalue, hw'⟩
    exact ⟨_, skip_solid hw (value_solid hvalue), skip_idem (value_solid hvalue), value_start hvalue⟩
  cases h with
  | last h   => exact helement h
  | more h _ => exact helement h

theorem members_start {cs : List Char} {members : List (List Nat × Json)} {rest : List Char}
    (h : Members cs members rest) :
    ∃ cs', bufferSkipWhitespace (bufferOf cs) = bufferOf cs' ∧ bufferSkipWhitespace (bufferOf cs') = bufferOf cs' ∧
      (bufferOf cs').head? ≠ some closeBrace := by
  obtain ⟨m, members', rest', -, ⟨w, w', hw, hname, hw', helement⟩, -⟩ := members_head h
  have hsolid : ∀ cs, Solid (JsonText.quote :: cs) := fun cs => .inr ⟨_, _, rfl, by decide, by decide⟩
  refine ⟨_, skip_solid hw (hsolid _), skip_idem (hsolid _), ?_⟩
  rw [(head_bufferOf JsonText.quote _ 34 rfl).1]
  decide

theorem bufferOf_ne_nil (text : List Char) : bufferOf text ≠ [] := (terminated_bufferOf text).ne_nil

/-- The loops skip the whitespace in front of what they read. -/
theorem arrayLoop_skip {p : ValueParser} {a b : ParseBuffer} (h : bufferSkipWhitespace a = bufferSkipWhitespace b)
    (fuel : Nat) : arrayLoop p fuel a = arrayLoop p fuel b := by
  cases fuel with
  | zero => rfl
  | succ fuel => rw [arrayLoop, arrayLoop, h]

theorem objectLoop_skip {p : ValueParser} {a b : ParseBuffer} (h : bufferSkipWhitespace a = bufferSkipWhitespace b)
    (fuel : Nat) : objectLoop p fuel a = objectLoop p fuel b := by
  cases fuel with
  | zero => rfl
  | succ fuel => rw [objectLoop, objectLoop, h]

theorem value_array {cs rest : List Char} {items : List Json} (helements : Elements cs items (']' :: rest))
    (ih : ElementsParsed strtod cs items (']' :: rest)) : ValueParsed strtod ('[' :: cs) (.array items) rest := by
  intro nesting hfit _
  have hbuffer : bufferOf ('[' :: cs) = openBracket :: bufferOf cs := by
    rw [bufferOf_cons]
    rfl
  rw [Gives, hbuffer, parseValue_bracket]
  cases nesting with
  | zero => rfl
  | succ nesting =>
      obtain ⟨cs', hskip, hidem, hhead⟩ := elements_start helements
      obtain ⟨hclose, hdrop⟩ := head_bufferOf ']' rest closeBracket rfl
      have hloop := ih nesting (bufferOf cs').length (fun v hv => hfit.item hv) ⟨rest, rfl⟩ (by rw [hskip])
      rw [Gives, arrayLoop_skip (hskip.trans hidem.symm)] at hloop
      dsimp only
      unfold parseArray
      rw [List.drop_one, List.tail_cons, hskip]
      dsimp only
      rw [if_neg hhead, if_neg (bufferOf_ne_nil cs'), hloop, Loops.ok_bind, ofJson]
      cases items.mapM (ofJson strtod nesting) with
      | none => rfl
      | some trees =>
          dsimp only [Option.map_some]
          rw [if_pos hclose, hdrop]

theorem value_object {cs rest : List Char} {members : List (List Nat × Json)}
    (hmembers : Members cs members ('}' :: rest)) (ih : MembersParsed strtod cs members ('}' :: rest)) :
    ValueParsed strtod ('{' :: cs) (.object members) rest := by
  intro nesting hfit _
  have hbuffer : bufferOf ('{' :: cs) = openBrace :: bufferOf cs := by
    rw [bufferOf_cons]
    rfl
  rw [Gives, hbuffer, parseValue_brace]
  cases nesting with
  | zero => rfl
  | succ nesting =>
      obtain ⟨cs', hskip, hidem, hhead⟩ := members_start hmembers
      obtain ⟨hclose, hdrop⟩ := head_bufferOf '}' rest closeBrace rfl
      have hloop := ih nesting (bufferOf cs').length (fun m hm => hfit.member hm) ⟨rest, rfl⟩ (by rw [hskip])
      rw [Gives, objectLoop_skip (hskip.trans hidem.symm)] at hloop
      have htree : ofJson strtod (nesting + 1) (.object members)
          = (members.mapM (memberTree strtod nesting)).map .object := rfl
      dsimp only
      unfold parseObject
      rw [List.drop_one, List.tail_cons, hskip]
      dsimp only
      rw [if_neg hhead, if_neg (bufferOf_ne_nil cs'), hloop, Loops.ok_bind, htree]
      cases members.mapM (memberTree strtod nesting) with
      | none => rfl
      | some trees =>
          dsimp only [Option.map_some]
          rw [if_pos hclose, hdrop]

/-- **The rules together.** -/
theorem element_document (hstrtod : ReadsNumbers strtod) {text : List Char} {v : Json} (h : Element text v []) :
    ElementParsed strtod text v [] :=
  @Element.rec
    (fun cs v rest _ => ValueParsed strtod cs v rest)
    (fun cs v rest _ => ElementParsed strtod cs v rest)
    (fun cs items rest _ => ElementsParsed strtod cs items rest)
    (fun cs m rest _ => MemberParsed strtod cs m rest)
    (fun cs members rest _ => MembersParsed strtod cs members rest)
    value_null value_true value_false
    (fun hnumber => value_number hstrtod hnumber)
    (fun hchars => value_string hchars)
    (fun hw => value_emptyArray hw)
    (fun helements ih => value_array helements ih)
    (fun hw => value_emptyObject hw)
    (fun hmembers ih => value_object hmembers ih)
    (fun _ _ _ _ _ hw hvalue hw' ih => element_parsed hw hvalue hw' ih)
    (fun _ ih => elements_last ih)
    (fun _ _ ih ihs => elements_more ih ihs)
    (fun _ _ _ _ _ _ _ hw hname hw' _ ih => member_parsed hw hname hw' ih)
    (fun _ ih => members_last ih)
    (fun _ _ ih ihs => members_more ih ihs)
    _ _ _ h

/-- A value with a chain of that many arrays and objects, each inside the one before. -/
inductive Nested : Nat → Json → Prop where
  | array {items : List Json} : Nested 1 (.array items)
  | object {members : List (List Nat × Json)} : Nested 1 (.object members)
  | item {n : Nat} {v : Json} {items : List Json} (hv : v ∈ items) (h : Nested n v) : Nested (n + 1) (.array items)
  | member {n : Nat} {m : List Nat × Json} {members : List (List Nat × Json)} (hm : m ∈ members) (h : Nested n m.2) :
      Nested (n + 1) (.object members)

/-- The code units are those of a string of the value, or of the name of a member. -/
inductive HasString (units : List Nat) : Json → Prop where
  | string : HasString units (.string units)
  | item {v : Json} {items : List Json} (hv : v ∈ items) (h : HasString units v) : HasString units (.array items)
  | name {v : Json} {members : List (List Nat × Json)} (hm : (units, v) ∈ members) : HasString units (.object members)
  | member {m : List Nat × Json} {members : List (List Nat × Json)} (hm : m ∈ members) (h : HasString units m.2) :
      HasString units (.object members)

/-- Every string of the value spells a text. -/
def Spelled (v : Json) : Prop := ∀ units, HasString units v → decodeUtf16 units ≠ none

theorem mapM_ne_none {α β : Type} {f : α → Option β} {l : List α} : l.mapM f ≠ none ↔ ∀ a ∈ l, f a ≠ none := by
  induction l with
  | nil => simp
  | cons a l ih =>
      rw [List.forall_mem_cons, ← ih, List.mapM_cons]
      cases f a with
      | none => simp
      | some b => cases l.mapM f <;> simp

theorem unitsString_ne_none {units : List Nat} : unitsString units ≠ none ↔ decodeUtf16 units ≠ none := by
  unfold unitsString
  rw [Ne, Option.map_eq_none_iff]

theorem memberTree_ne_none {m : List Nat × Json} :
    memberTree strtod nesting m ≠ none ↔ decodeUtf16 m.1 ≠ none ∧ ofJson strtod nesting m.2 ≠ none := by
  rw [← unitsString_ne_none]
  unfold memberTree
  cases unitsString m.1 <;> cases ofJson strtod nesting m.2 <;> simp

theorem nested_array {n : Nat} {items : List Json} :
    Nested (n + 2) (.array items) ↔ ∃ v ∈ items, Nested (n + 1) v := by
  constructor
  · rintro (_ | _ | ⟨hv, h⟩)
    exact ⟨_, hv, h⟩
  · rintro ⟨v, hv, h⟩
    exact .item hv h

theorem nested_object {n : Nat} {members : List (List Nat × Json)} :
    Nested (n + 2) (.object members) ↔ ∃ m ∈ members, Nested (n + 1) m.2 := by
  constructor
  · rintro (_ | _ | _ | ⟨hm, h⟩)
    exact ⟨_, hm, h⟩
  · rintro ⟨m, hm, h⟩
    exact .member hm h

theorem spelled_array {items : List Json} : Spelled (.array items) ↔ ∀ v ∈ items, Spelled v := by
  constructor
  · exact fun h v hv units hunits => h units (.item hv hunits)
  · rintro h units (_ | ⟨hv, hunits⟩)
    exact h _ hv units hunits

theorem spelled_object {members : List (List Nat × Json)} :
    Spelled (.object members) ↔ ∀ m ∈ members, decodeUtf16 m.1 ≠ none ∧ Spelled m.2 := by
  constructor
  · exact fun h m hm => ⟨h m.1 (.name hm), fun units hunits => h units (.member hm hunits)⟩
  · rintro h units (_ | _ | hm | ⟨hm, hunits⟩)
    · exact (h _ hm).1
    · exact (h _ hm).2 units hunits

/-- **The limits of the parser**: how deep a value may be nested, and that its strings spell texts. -/
theorem ofJson_ne_none_iff (strtod : Strtod) (nesting : Nat) (v : Json) :
    ofJson strtod nesting v ≠ none ↔ ¬ Nested (nesting + 1) v ∧ Spelled v := by
  induction nesting generalizing v with
  | zero =>
      cases v with
      | null          => exact ⟨fun _ => ⟨nofun, nofun⟩, fun _ => by simp [ofJson]⟩
      | bool b        => exact ⟨fun _ => ⟨nofun, nofun⟩, fun _ => by simp [ofJson]⟩
      | number digits => exact ⟨fun _ => ⟨nofun, nofun⟩, fun _ => by simp [ofJson]⟩
      | string units  =>
          rw [ofJson, Ne, Option.map_eq_none_iff, ← Ne, unitsString_ne_none]
          exact ⟨fun h => ⟨nofun, by rintro _ ⟨⟩; exact h⟩, fun h => h.2 units .string⟩
      | array items    => exact ⟨fun h => absurd rfl h, fun h => absurd .array h.1⟩
      | object members => exact ⟨fun h => absurd rfl h, fun h => absurd .object h.1⟩
  | succ nesting ih =>
      cases v with
      | null          => exact ⟨fun _ => ⟨nofun, nofun⟩, fun _ => by simp [ofJson]⟩
      | bool b        => exact ⟨fun _ => ⟨nofun, nofun⟩, fun _ => by simp [ofJson]⟩
      | number digits => exact ⟨fun _ => ⟨nofun, nofun⟩, fun _ => by simp [ofJson]⟩
      | string units  =>
          rw [ofJson, Ne, Option.map_eq_none_iff, ← Ne, unitsString_ne_none]
          exact ⟨fun h => ⟨nofun, by rintro _ ⟨⟩; exact h⟩, fun h => h.2 units .string⟩
      | array items =>
          rw [ofJson, Ne, Option.map_eq_none_iff, ← Ne, mapM_ne_none, nested_array, spelled_array]
          simp only [ih]
          constructor
          · exact fun h => ⟨fun ⟨v, hv, hnested⟩ => (h v hv).1 hnested, fun v hv => (h v hv).2⟩
          · exact fun h v hv => ⟨fun hnested => h.1 ⟨v, hv, hnested⟩, h.2 v hv⟩
      | object members =>
          have htree : ofJson strtod (nesting + 1) (.object members)
              = (members.mapM (memberTree strtod nesting)).map .object := rfl
          rw [htree, Ne, Option.map_eq_none_iff, ← Ne, mapM_ne_none, nested_object, spelled_object]
          simp only [memberTree_ne_none, ih]
          constructor
          · exact fun h => ⟨fun ⟨m, hm, hnested⟩ => (h m hm).2.1 hnested, fun m hm => ⟨(h m hm).1, (h m hm).2.2⟩⟩
          · exact fun h m hm => ⟨(h.2 m hm).1, fun hnested => h.1 ⟨m, hm, hnested⟩, (h.2 m hm).2⟩

end Values

/-! ## Documents -/

/-- A document does not begin with a byte order mark. -/
theorem skipBom_document {text : List Char} {v : Json} (h : Element text v []) :
    skipUtf8Bom (bufferOf text) = bufferOf text := by
  have hfirst : ∃ b behind, bufferOf text = b :: behind ∧ b ≠ 0xEF := by
    obtain ⟨w, w', hw, hvalue, hw'⟩ := h
    cases w with
    | nil =>
        rcases value_solid hvalue with rfl | ⟨c, rest, rfl, -, hhigh⟩
        · exact ⟨0, [], rfl, by decide⟩
        · refine ⟨c.toNat.toUInt8, bufferOf rest, ?_, ?_⟩
          · rw [List.nil_append, bufferOf_cons, utf8EncodeChar_ascii hhigh]
            rfl
          · intro hbom
            have hnat := congrArg UInt8.toNat hbom
            rw [Nat.toUInt8_eq, UInt8.toNat_ofNat'] at hnat
            have : (0xEF : UInt8).toNat = 239 := rfl
            omega
    | cons c w =>
        rcases hw c List.mem_cons_self with rfl | rfl | rfl | rfl
        · exact ⟨32, _, rfl, by decide⟩
        · exact ⟨10, _, rfl, by decide⟩
        · exact ⟨13, _, rfl, by decide⟩
        · exact ⟨9, _, rfl, by decide⟩
  obtain ⟨b, behind, hbuffer, hb⟩ := hfirst
  unfold skipUtf8Bom
  rw [hbuffer, if_neg]
  rintro ⟨-, htake⟩
  exact hb (List.cons.inj htake).1

/-- A document is parsed to its tree. -/
theorem parse_tree {strtod : Strtod} (hstrtod : ReadsNumbers strtod) (text : Text) {v : Json}
    (hdoc : Document text.chars v) (hfit : NumbersFit v) :
    parse strtod text.cString = .ok (ofJson strtod nestingLimit v) := by
  obtain ⟨rest', hvalue, -⟩ := element_document hstrtod hdoc nestingLimit hfit (.inl rfl)
  have hbuffer : text.cString.bytes ++ [0] = bufferOf text.chars := rfl
  unfold Gives at hvalue
  unfold parse
  rw [hbuffer, skipBom_document hdoc, hvalue, Loops.ok_bind, Option.map_map]
  simp [Function.comp_def]

/-- **A document and its limits.** `cJSON_Parse` gives the tree that the document denotes, and nothing at all exactly
    where the document is nested too deep or has half of a surrogate pair in a string. -/
theorem parse_document {strtod : Strtod} (hstrtod : ReadsNumbers strtod) (text : Text) {v : Json}
    (hdoc : Document text.chars v) (hfit : NumbersFit v) :
    parse strtod text.cString = .ok (ofJson strtod nestingLimit v) ∧
      ((∃ json, parse strtod text.cString = .ok (some json)) ↔ ¬ Nested (nestingLimit + 1) v ∧ Spelled v) := by
  have htree := parse_tree hstrtod text hdoc hfit
  refine ⟨htree, ?_⟩
  rw [← ofJson_ne_none_iff strtod nestingLimit v, htree, Option.ne_none_iff_exists']
  constructor
  · rintro ⟨json, hjson⟩
    exact ⟨json, Except.ok.inj hjson⟩
  · rintro ⟨json, hjson⟩
    exact ⟨json, congrArg Except.ok hjson⟩

/-- `strtod` where the text is a word of digits. -/
def integerStrtod : Strtod where
  read text :=
    let word := text.takeWhile isNumberChar
    (word.length, .finite (word.foldl (fun n c => 10 * n + (c.toNat - 48)) 0 : Nat))
  read_le _ := (List.takeWhile_prefix isNumberChar).length_le

theorem integerStrtod_reads : ReadsNumbers integerStrtod := by
  intro digits h
  obtain ⟨hlen, hnumber⟩ := utf8_number (number_chars h)
  show ((utf8 digits).takeWhile isNumberChar).length = digits.length
  rw [List.takeWhile_eq_self_iff.mpr hnumber, hlen]

/-- `[12, "\ud83d\ude00"]`. -/
def escapedPair : Text where
  chars := ['[', '1', '2', ',', ' ', JsonText.quote, JsonText.backslash, 'u', 'd', '8', '3', 'd', JsonText.backslash,
    'u', 'd', 'e', '0', '0', JsonText.quote, ']']
  noNul := by decide

/-- What it denotes. -/
def escapedPairValue : Json := .array [.number ['1', '2'], .string [0xD83D, 0xDE00]]

theorem escapedPair_document : Document escapedPair.chars escapedPairValue := by
  have hwhole : Whole ['1', '2'] := .digits rfl (by decide) ⟨by simp, by simp⟩
  have hnumber : Number (['1', '2'] ++ [] ++ []) := .positive hwhole .none .none
  have hdigit : JsonText.hexDigit 'd' = some 13 ∧ JsonText.hexDigit '8' = some 8 ∧ JsonText.hexDigit '3' = some 3 ∧
      JsonText.hexDigit 'e' = some 14 ∧ JsonText.hexDigit '0' = some 0 := by decide
  obtain ⟨hd, h8, h3, he, h0⟩ := hdigit
  have hchars : Chars (escapedPair.chars.drop 6) [0xD83D, 0xDE00] [']'] :=
    .hex hd h8 h3 hd (.hex hd he h0 h0 .close)
  have hspace : Ws [' '] := by simp [Ws]
  exact .of_value (.array (.more (.of_value (.number hnumber)) (.last (.mk [' '] [] hspace (.string hchars) Ws.nil))))

theorem escapedPair_fits : NumbersFit escapedPairValue := by
  simp [escapedPairValue]

theorem parse_document_escapedPair :
    parse integerStrtod escapedPair.cString = .ok (ofJson integerStrtod nestingLimit escapedPairValue) ∧
      ((∃ json, parse integerStrtod escapedPair.cString = .ok (some json)) ↔
        ¬ Nested (nestingLimit + 1) escapedPairValue ∧ Spelled escapedPairValue) :=
  parse_document integerStrtod_reads escapedPair escapedPair_document escapedPair_fits

end CJson

end Hand2
