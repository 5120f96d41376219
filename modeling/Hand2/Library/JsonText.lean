import Hand2.Library.Utf8

/-!
# `Library.JsonText` — the JSON grammar

The grammar of JSON documents, one constructor for each alternative of a rule. A rule relates the text in
front of it, the value it reads and the text behind it, so nothing is said about how a parser chooses
between alternatives: a text that is no document has no derivation. A string denotes the sixteen-bit
code units it spells, an escape of four hexadecimal digits standing for one unit.
-/

namespace JsonText

open Utf8

/-- The character `"`. -/
def quote : Char := Char.ofNat 34

/-- The character `\`. -/
def backslash : Char := Char.ofNat 92

/-- What a document denotes. A number is kept as its digits. -/
inductive Json where
  | null
  | bool (b : Bool)
  | number (digits : List Char)
  | string (units : List Nat)
  | array (items : List Json)
  | object (members : List (List Nat × Json))

/-! ## Strings -/

/-- A character that a string may hold as it stands. -/
def Unescaped (c : Char) : Prop := 0x20 ≤ c.toNat ∧ c ≠ quote ∧ c ≠ backslash

instance (c : Char) : Decidable (Unescaped c) := inferInstanceAs (Decidable (_ ∧ _))

/-- A text is checked character by character. -/
theorem forall_of_all {P : Char → Prop} [DecidablePred P] {text : List Char}
    (h : text.all (fun c => decide (P c)) = true) : ∀ c ∈ text, P c := by
  simpa using h

/-- The unit that `\` followed by `e` denotes. -/
def escapeUnit (e : Char) : Option Nat :=
  if e = quote then some 0x22
  else if e = backslash then some 0x5C
  else if e = '/' then some 0x2F
  else if e = 'b' then some 0x08
  else if e = 'f' then some 0x0C
  else if e = 'n' then some 0x0A
  else if e = 'r' then some 0x0D
  else if e = 't' then some 0x09
  else none

/-- The value of a hexadecimal digit. -/
def hexDigit (c : Char) : Option Nat :=
  if '0' ≤ c ∧ c ≤ '9' then some (c.toNat - 0x30)
  else if 'a' ≤ c ∧ c ≤ 'f' then some (c.toNat - 0x61 + 10)
  else if 'A' ≤ c ∧ c ≤ 'F' then some (c.toNat - 0x41 + 10)
  else none

/-- The characters of a string and its closing quote. -/
inductive Chars : List Char → List Nat → List Char → Prop where
  | close {rest} : Chars (quote :: rest) [] rest
  | plain {c cs us rest} : Unescaped c → Chars cs us rest → Chars (c :: cs) (utf16Char c ++ us) rest
  | escape {e u cs us rest} : escapeUnit e = some u → Chars cs us rest →
      Chars (backslash :: e :: cs) (u :: us) rest
  | hex {h₁ h₂ h₃ h₄ d₁ d₂ d₃ d₄ cs us rest} : hexDigit h₁ = some d₁ → hexDigit h₂ = some d₂ →
      hexDigit h₃ = some d₃ → hexDigit h₄ = some d₄ → Chars cs us rest →
      Chars (backslash :: 'u' :: h₁ :: h₂ :: h₃ :: h₄ :: cs) ((d₁ * 4096 + d₂ * 256 + d₃ * 16 + d₄) :: us) rest

theorem not_unescaped_quote : ¬ Unescaped quote := fun h => h.2.1 rfl

theorem not_unescaped_backslash : ¬ Unescaped backslash := fun h => h.2.2 rfl

theorem quote_ne_backslash : quote ≠ backslash := by decide

/-- A string that starts with its closing quote is empty. -/
theorem chars_quote {cs : List Char} {us : List Nat} {rest : List Char} (h : Chars (quote :: cs) us rest) :
    us = [] ∧ rest = cs := by
  generalize htext : quote :: cs = text at h
  cases h with
  | close =>
      injection htext with _ hcs
      exact ⟨rfl, hcs.symm⟩
  | plain hplain _ =>
      injection htext with hc _
      exact absurd (hc ▸ hplain) not_unescaped_quote
  | escape => exact absurd (List.cons.inj htext).1 quote_ne_backslash
  | hex => exact absurd (List.cons.inj htext).1 quote_ne_backslash

/-- A string that starts with neither a quote nor a backslash starts with a plain character. -/
theorem chars_cons {c : Char} {cs : List Char} {us : List Nat} {rest : List Char} (h : Chars (c :: cs) us rest)
    (hquote : c ≠ quote) (hback : c ≠ backslash) :
    Unescaped c ∧ ∃ us', us = utf16Char c ++ us' ∧ Chars cs us' rest := by
  generalize htext : c :: cs = text at h
  cases h with
  | close => exact absurd (List.cons.inj htext).1 hquote
  | plain hplain hchars =>
      injection htext with hc hcs
      subst hc hcs
      exact ⟨hplain, _, rfl, hchars⟩
  | escape => exact absurd (List.cons.inj htext).1 hback
  | hex => exact absurd (List.cons.inj htext).1 hback

/-- A backslash starts a two-character escape or one of six characters. -/
theorem chars_backslash {cs : List Char} {us : List Nat} {rest : List Char}
    (h : Chars (backslash :: cs) us rest) :
    (∃ e u cs' us', cs = e :: cs' ∧ us = u :: us' ∧ escapeUnit e = some u ∧ Chars cs' us' rest) ∨
    (∃ h₁ h₂ h₃ h₄ u cs' us', cs = 'u' :: h₁ :: h₂ :: h₃ :: h₄ :: cs' ∧ us = u :: us' ∧
      (∀ h ∈ [h₁, h₂, h₃, h₄], hexDigit h ≠ none) ∧ Chars cs' us' rest) := by
  generalize htext : backslash :: cs = text at h
  cases h with
  | close => exact absurd (List.cons.inj htext).1.symm quote_ne_backslash
  | plain hplain _ =>
      injection htext with hc _
      exact absurd (hc ▸ hplain) not_unescaped_backslash
  | escape hu hchars =>
      injection htext with _ hcs
      exact .inl ⟨_, _, _, _, hcs, rfl, hu, hchars⟩
  | hex h₁ h₂ h₃ h₄ hchars =>
      injection htext with _ hcs
      refine .inr ⟨_, _, _, _, _, _, _, hcs, rfl, ?_, hchars⟩
      simp [h₁, h₂, h₃, h₄]

/-- Behind a backslash, a character that starts an escape of two stands for its unit. -/
theorem chars_escape {e : Char} {u : Nat} {cs : List Char} {us : List Nat} {rest : List Char}
    (hu : escapeUnit e = some u) (h : Chars (backslash :: e :: cs) us rest) :
    ∃ us', us = u :: us' ∧ Chars cs us' rest := by
  rcases chars_backslash h with ⟨_, _, _, us', hcs, hus, hu', hchars⟩ | ⟨_, _, _, _, _, _, _, hcs, -⟩
  · obtain ⟨rfl, rfl⟩ := List.cons.inj hcs
    rw [hu] at hu'
    cases hu'
    exact ⟨us', hus, hchars⟩
  · obtain ⟨rfl, -⟩ := List.cons.inj hcs
    have hnone : escapeUnit 'u' = none := by decide
    rw [hnone] at hu
    cases hu

/-- Unescaped text up to a quote is read as it stands. -/
theorem Chars.of_plain {text rest : List Char} (h : ∀ c ∈ text, Unescaped c) :
    Chars (text ++ quote :: rest) (utf16 text) rest := by
  induction text with
  | nil => exact .close
  | cons c text ih =>
      apply Chars.plain (h c (List.mem_cons_self ..))
      exact ih fun c' hc' => h c' (List.mem_cons_of_mem _ hc')

/-- Unescaped text up to a quote has no other reading. -/
theorem chars_plain {text cs : List Char} {us : List Nat} {rest : List Char} (hplain : ∀ c ∈ text, Unescaped c)
    (h : Chars (text ++ quote :: cs) us rest) : us = utf16 text ∧ rest = cs := by
  induction text generalizing us with
  | nil => exact chars_quote h
  | cons c text ih =>
      have hc : Unescaped c := hplain c (List.mem_cons_self ..)
      obtain ⟨-, us', rfl, hchars⟩ := chars_cons h hc.2.1 hc.2.2
      obtain ⟨rfl, hrest⟩ := ih (fun c' hc' => hplain c' (List.mem_cons_of_mem _ hc')) hchars
      exact ⟨rfl, hrest⟩

/-- What an escape inside raw text consumes lies in the text, unless it is the closing quote. -/
theorem chars_backslash_raw {text cs : List Char} {us : List Nat} {rest : List Char}
    (h : Chars (backslash :: (text ++ quote :: cs)) us rest) :
    (∃ us', Chars cs us' rest) ∨
    ∃ head text' u us', text = head ++ text' ∧ head ≠ [] ∧ us = u :: us' ∧ Chars (text' ++ quote :: cs) us' rest := by
  rcases chars_backslash h with ⟨e, u, cs', us', hcs, rfl, -, hchars⟩ |
    ⟨h₁, h₂, h₃, h₄, u, cs', us', hcs, rfl, hhex, hchars⟩
  · cases text with
    | nil =>
        obtain ⟨-, rfl⟩ := List.cons.inj hcs
        exact .inl ⟨us', hchars⟩
    | cons e' text =>
        obtain ⟨-, rfl⟩ := List.cons.inj hcs
        exact .inr ⟨[e'], text, u, us', rfl, by simp, rfl, hchars⟩
  · -- the four digits lie in front of the quote, which is no digit
    have hhead : quote ∉ ['u', h₁, h₂, h₃, h₄] := by
      intro hmem
      rcases List.mem_cons.mp hmem with hu | hdigit
      · exact absurd hu (by decide)
      · exact hhex quote hdigit (by decide)
    have hsplit : text ++ quote :: cs = ['u', h₁, h₂, h₃, h₄] ++ cs' := hcs
    rcases List.append_eq_append_iff.mp hsplit with ⟨beyond, hhex', htail⟩ | ⟨text', htext, hcs'⟩
    · cases beyond with
      | nil =>
          refine .inr ⟨['u', h₁, h₂, h₃, h₄], [], u, us', by simpa using hhex'.symm, by simp, rfl, ?_⟩
          have hcs' : cs' = quote :: cs := by simpa using htail.symm
          exact hcs' ▸ hchars
      | cons c beyond =>
          obtain ⟨rfl, -⟩ := List.cons.inj htail
          exact absurd (by simp [hhex']) hhead
    · exact .inr ⟨_, text', u, us', htext, by simp, rfl, hcs' ▸ hchars⟩

/-- **Raw text between quotes.** Either all of it is plain and it is read as it stands, or the string it
    spells has fewer units than it has, or its last backslash swallowed the closing quote and the string
    goes on behind it. -/
theorem chars_raw (text cs : List Char) (us : List Nat) (rest : List Char)
    (h : Chars (text ++ quote :: cs) us rest) :
    ((∀ c ∈ text, Unescaped c) ∧ us = utf16 text ∧ rest = cs) ∨ us.length < (utf16 text).length ∨
      ∃ us', Chars cs us' rest := by
  match text with
  | [] =>
      obtain ⟨rfl, rfl⟩ := chars_quote h
      exact .inl ⟨by simp, rfl, rfl⟩
  | c :: text =>
      have hpos := length_utf16Char_pos c
      by_cases hquote : c = quote
      · -- the string ends here
        subst hquote
        obtain ⟨rfl, -⟩ := chars_quote h
        refine .inr (.inl ?_)
        simp only [utf16_cons, List.length_append, List.length_nil]
        omega
      · by_cases hback : c = backslash
        · -- an escape: at least two units of the text become one
          subst hback
          rcases chars_backslash_raw h with hpast | ⟨head, text', u, us', htext, hhead, rfl, hchars⟩
          · exact .inr (.inr hpast)
          · have hshorter : text'.length < text.length + 1 := by
              rw [htext, List.length_append]
              omega
            have hunits : 0 < (utf16 head).length :=
              Nat.lt_of_lt_of_le (List.length_pos_iff.mpr hhead) (length_le_utf16 head)
            rcases chars_raw text' cs us' rest hchars with ⟨-, rfl, -⟩ | hless | hpast
            · refine .inr (.inl ?_)
              simp only [htext, utf16_cons, utf16_append, List.length_append, List.length_cons]
              omega
            · refine .inr (.inl ?_)
              simp only [htext, utf16_cons, utf16_append, List.length_append, List.length_cons]
              omega
            · exact .inr (.inr hpast)
        · obtain ⟨hplain, us', rfl, hchars⟩ := chars_cons h hquote hback
          rcases chars_raw text cs us' rest hchars with ⟨hall, rfl, hrest⟩ | hless | hpast
          · exact .inl ⟨List.forall_mem_cons.mpr ⟨hplain, hall⟩, rfl, hrest⟩
          · refine .inr (.inl ?_)
            simp only [utf16_cons, List.length_append]
            omega
          · exact .inr (.inr hpast)
termination_by text.length

/-! ## Numbers -/

/-- One digit or more. -/
def Digits (ds : List Char) : Prop := ds ≠ [] ∧ ∀ d ∈ ds, d.isDigit = true

/-- The part of a number in front of the point, without its sign: no leading zero. -/
inductive Whole : List Char → Prop where
  | digit {d} : d.isDigit = true → Whole [d]
  | digits {d ds} : d.isDigit = true → d ≠ '0' → Digits ds → Whole (d :: ds)

/-- The part of a number from the point on. -/
inductive Fraction : List Char → Prop where
  | none : Fraction []
  | digits {ds} : Digits ds → Fraction ('.' :: ds)

/-- The exponent of a number. -/
inductive Exponent : List Char → Prop where
  | none : Exponent []
  | digits {e sign ds} : e = 'e' ∨ e = 'E' → sign = [] ∨ sign = ['+'] ∨ sign = ['-'] → Digits ds →
      Exponent (e :: (sign ++ ds))

/-- A number. -/
inductive Number : List Char → Prop where
  | positive {whole fraction exponent} : Whole whole → Fraction fraction → Exponent exponent →
      Number (whole ++ fraction ++ exponent)
  | negative {whole fraction exponent} : Whole whole → Fraction fraction → Exponent exponent →
      Number ('-' :: (whole ++ fraction ++ exponent))

/-- A number starts with a digit or a minus sign. -/
theorem Number.head {text : List Char} (h : Number text) :
    ∃ c cs, text = c :: cs ∧ (c = '-' ∨ c.isDigit = true) := by
  cases h with
  | positive hwhole =>
      cases hwhole with
      | digit hd => exact ⟨_, _, rfl, .inr hd⟩
      | digits hd => exact ⟨_, _, rfl, .inr hd⟩
  | negative => exact ⟨_, _, rfl, .inl rfl⟩

/-! ## Values -/

/-- Whitespace between tokens. -/
def Ws (w : List Char) : Prop := ∀ c ∈ w, c = ' ' ∨ c = '\n' ∨ c = '\r' ∨ c = '\t'

mutual

inductive Value : List Char → Json → List Char → Prop where
  | null {rest} : Value ('n' :: 'u' :: 'l' :: 'l' :: rest) .null rest
  | true {rest} : Value ('t' :: 'r' :: 'u' :: 'e' :: rest) (.bool true) rest
  | false {rest} : Value ('f' :: 'a' :: 'l' :: 's' :: 'e' :: rest) (.bool false) rest
  | number {digits rest} : Number digits → Value (digits ++ rest) (.number digits) rest
  | string {cs us rest} : Chars cs us rest → Value (quote :: cs) (.string us) rest
  | emptyArray {w rest} : Ws w → Value ('[' :: (w ++ ']' :: rest)) (.array []) rest
  | array {cs items rest} : Elements cs items (']' :: rest) → Value ('[' :: cs) (.array items) rest
  | emptyObject {w rest} : Ws w → Value ('{' :: (w ++ '}' :: rest)) (.object []) rest
  | object {cs members rest} : Members cs members ('}' :: rest) → Value ('{' :: cs) (.object members) rest

/-- A value with the whitespace around it. -/
inductive Element : List Char → Json → List Char → Prop where
  | mk (w w') {cs v rest} : Ws w → Value cs v (w' ++ rest) → Ws w' → Element (w ++ cs) v rest

inductive Elements : List Char → List Json → List Char → Prop where
  | last {cs v rest} : Element cs v rest → Elements cs [v] rest
  | more {cs v cs' items rest} : Element cs v (',' :: cs') → Elements cs' items rest →
      Elements cs (v :: items) rest

inductive Member : List Char → List Nat × Json → List Char → Prop where
  | mk (w w') {cs name cs' v rest} : Ws w → Chars cs name (w' ++ ':' :: cs') → Ws w' → Element cs' v rest →
      Member (w ++ quote :: cs) (name, v) rest

inductive Members : List Char → List (List Nat × Json) → List Char → Prop where
  | last {cs m rest} : Member cs m rest → Members cs [m] rest
  | more {cs m cs' members rest} : Member cs m (',' :: cs') → Members cs' members rest →
      Members cs (m :: members) rest

end

/-- The text is a JSON document that denotes `v`. -/
def Document (text : List Char) (v : Json) : Prop := Element text v []

/-- A value is another one, or stands somewhere in it. -/
inductive Json.Within (v : Json) : Json → Prop where
  | refl : Within v v
  | item {w : Json} {items : List Json} : w ∈ items → Within v w → Within v (.array items)
  | member {m : List Nat × Json} {members : List (List Nat × Json)} : m ∈ members → Within v m.2 →
      Within v (.object members)

/-! ## Reading a token back -/

/-- No whitespace stands in front of another character. -/
theorem Ws.eq_nil {w cs text : List Char} {c : Char} (h : Ws w) (hsplit : w ++ cs = c :: text)
    (hc : c ≠ ' ' ∧ c ≠ '\n' ∧ c ≠ '\r' ∧ c ≠ '\t') : w = [] ∧ cs = c :: text := by
  cases w with
  | nil => exact ⟨rfl, hsplit⟩
  | cons b w =>
      obtain ⟨rfl, -⟩ := List.cons.inj hsplit
      rcases h b (List.mem_cons_self ..) with hb | hb | hb | hb
      · exact absurd hb hc.1
      · exact absurd hb hc.2.1
      · exact absurd hb hc.2.2.1
      · exact absurd hb hc.2.2.2

theorem Ws.nil : Ws [] := by simp [Ws]

/-- A number starts with no quote and no brace. -/
theorem Number.head_ne {digits rest cs : List Char} {c : Char} (h : Number digits)
    (hsplit : digits ++ rest = c :: cs) (hminus : c ≠ '-') (hdigit : c.isDigit = false) : False := by
  obtain ⟨d, ds, rfl, hd⟩ := h.head
  obtain ⟨rfl, -⟩ := List.cons.inj hsplit
  rcases hd with hd | hd
  · exact hminus hd
  · rw [hdigit] at hd
    cases hd

/-- What a quote starts is a string. -/
theorem value_quote {cs : List Char} {v : Json} {rest : List Char} (h : Value (quote :: cs) v rest) :
    ∃ us, v = .string us ∧ Chars cs us rest := by
  generalize htext : quote :: cs = text at h
  cases h with
  | string hchars =>
      obtain ⟨-, rfl⟩ := List.cons.inj htext
      exact ⟨_, rfl, hchars⟩
  | number hnumber => exact (hnumber.head_ne htext.symm (by decide) (by decide)).elim
  | _ => exact absurd (List.cons.inj htext).1 (by decide)

/-- What a brace with a member behind it starts is an object. -/
theorem value_brace {cs : List Char} {v : Json} {rest : List Char} (h : Value ('{' :: quote :: cs) v rest) :
    ∃ members, v = .object members ∧ Members (quote :: cs) members ('}' :: rest) := by
  generalize htext : '{' :: quote :: cs = text at h
  cases h with
  | object hmembers =>
      obtain ⟨-, rfl⟩ := List.cons.inj htext
      exact ⟨_, rfl, hmembers⟩
  | emptyObject hws =>
      obtain ⟨-, hbody⟩ := List.cons.inj htext
      have hclose := (hws.eq_nil hbody.symm (by decide)).2
      exact absurd (List.cons.inj hclose).1 (by decide)
  | number hnumber => exact (hnumber.head_ne htext.symm (by decide) (by decide)).elim
  | _ => exact absurd (List.cons.inj htext).1 (by decide)

/-- An element that starts with a token's character is its value, with whitespace behind it. -/
theorem element_head {c : Char} {cs : List Char} {v : Json} {rest : List Char} (h : Element (c :: cs) v rest)
    (hc : c ≠ ' ' ∧ c ≠ '\n' ∧ c ≠ '\r' ∧ c ≠ '\t') : ∃ w, Ws w ∧ Value (c :: cs) v (w ++ rest) := by
  generalize htext : c :: cs = text at h
  cases h with
  | mk _ _ hw hvalue hw' =>
      obtain ⟨rfl, rfl⟩ := hw.eq_nil htext.symm hc
      exact ⟨_, hw', hvalue⟩

/-- A member under a plain name whose value starts with a quote: its name and its string. -/
theorem member_string {name cs : List Char} {m : List Nat × Json} {rest : List Char}
    (hname : ∀ c ∈ name, Unescaped c) (h : Member (quote :: (name ++ quote :: ':' :: quote :: cs)) m rest) :
    ∃ w us, Ws w ∧ m = (utf16 name, .string us) ∧ Chars cs us (w ++ rest) := by
  generalize htext : quote :: (name ++ quote :: ':' :: quote :: cs) = text at h
  cases h with
  | mk _ _ hw hchars hw' helement =>
      obtain ⟨-, hbody⟩ := hw.eq_nil htext.symm (by decide)
      obtain ⟨-, rfl⟩ := List.cons.inj hbody
      obtain ⟨rfl, hcolon⟩ := chars_plain hname hchars
      obtain ⟨-, hvalue⟩ := hw'.eq_nil hcolon (by decide)
      obtain ⟨-, rfl⟩ := List.cons.inj hvalue
      obtain ⟨w, hwRest, hstring⟩ := element_head helement (by decide)
      obtain ⟨us, rfl, hus⟩ := value_quote hstring
      exact ⟨w, us, hwRest, rfl, hus⟩

/-- A value without whitespace around it. -/
theorem Element.of_value {cs v rest} (h : Value cs v rest) : Element cs v rest := .mk [] [] Ws.nil h Ws.nil

/-- A member, written without whitespace. -/
theorem Member.of_value (name : List Char) {cs v rest} (hname : ∀ c ∈ name, Unescaped c) (h : Value cs v rest) :
    Member (quote :: (name ++ quote :: ':' :: cs)) (utf16 name, v) rest :=
  .mk [] [] Ws.nil (Chars.of_plain hname) Ws.nil (.of_value h)

/-- A string member, written without whitespace. -/
theorem Member.of_string (name : List Char) {cs us rest} (hname : ∀ c ∈ name, Unescaped c) (h : Chars cs us rest) :
    Member (quote :: (name ++ quote :: ':' :: quote :: cs)) (utf16 name, .string us) rest :=
  .of_value name hname (.string h)

/-- A list of members has a first one, and either nothing or a comma behind it. -/
theorem members_head {cs : List Char} {members : List (List Nat × Json)} {rest : List Char}
    (h : Members cs members rest) :
    ∃ m members' rest', members = m :: members' ∧ Member cs m rest' ∧
      ((members' = [] ∧ rest' = rest) ∨ ∃ cs', rest' = ',' :: cs' ∧ Members cs' members' rest) := by
  cases h with
  | last hm => exact ⟨_, [], _, rfl, hm, .inl ⟨rfl, rfl⟩⟩
  | more hm hmore => exact ⟨_, _, _, rfl, hm, .inr ⟨_, rfl, hmore⟩⟩

/-- Under distinct names the first member is the only one of its name. -/
theorem value_of_mem {name : List Nat} {v v' : Json} {members : List (List Nat × Json)}
    (hnodup : (((name, v') :: members).map Prod.fst).Nodup) (h : (name, v) ∈ (name, v') :: members) : v = v' := by
  rcases List.mem_cons.mp h with heq | hmem
  · exact congrArg Prod.snd heq
  · have htwice : name ∈ members.map Prod.fst := List.mem_map_of_mem hmem
    rw [List.map_cons, List.nodup_cons] at hnodup
    exact absurd htwice hnodup.1

end JsonText
