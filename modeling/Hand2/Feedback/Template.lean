import Hand2.Feedback.Scan

/-!
# `Feedback.Template` — the feedback format, as its authors write it

A template is text with `$$` for a dollar and `${name}` for a placeholder. `tokenize` reads a template in
which every `${` is closed, placeholders are not nested and names hold no `$`; it says nothing about how the
two stages scan. `lex_of_tokenize` is the bridge: the events of a template are those of its tokens, and a
`}` of the text is the only token whose event depends on what was read before.
-/

namespace Hand2

/-- A part of a template. -/
inductive Token where
  | text (c : UInt8)
  | escape
  | placeholder (name : List UInt8)
  deriving DecidableEq

namespace Token

/-- How a token is written. -/
def render : Token → List UInt8
  | text c           => [c]
  | escape           => [dollar, dollar]
  | placeholder name => dollar :: openBrace :: name ++ [closeBrace]

end Token

/-- How a list of tokens is written. -/
def renderTokens (ts : List Token) : List UInt8 := ts.flatMap Token.render

/-- The tokens of a text, within a placeholder whose name so far is `name` if there is one: none if a
    placeholder is not closed, is nested or has a `$` in its name. -/
def tokenize : Option (List UInt8) → List UInt8 → Option (List Token)
  | none,      []              => some []
  | none,      [c]             => some [.text c]
  | none,      c :: c' :: rest =>
      if c = dollar ∧ c' = dollar then (tokenize none rest).map (.escape :: ·)
      else if c = dollar ∧ c' = openBrace then tokenize (some []) rest
      else (tokenize none (c' :: rest)).map (.text c :: ·)
  | some _,    []              => none
  | some name, c :: rest       =>
      if c = closeBrace then (tokenize none rest).map (.placeholder name :: ·)
      else if c = dollar then none
      else tokenize (some (name ++ [c])) rest

/-- What stands before the rest of a text that is read within a placeholder. -/
def openText : Option (List UInt8) → List UInt8
  | none      => []
  | some name => dollar :: openBrace :: name

/-- Reading loses nothing: the tokens of a text render to it. -/
theorem render_of_tokenize {within : Option (List UInt8)} {s : List UInt8} {ts : List Token}
    (h : tokenize within s = some ts) : renderTokens ts = openText within ++ s := by
  fun_induction tokenize within s generalizing ts with
  | case1 => injection h with h; subst h; rfl
  | case2 c => injection h with h; subst h; rfl
  | case3 c c' rest hpair ih =>
      obtain ⟨ts', hts', rfl⟩ := Option.map_eq_some_iff.mp h
      obtain ⟨rfl, rfl⟩ := hpair
      show [dollar, dollar] ++ renderTokens ts' = _
      rw [ih hts']
      rfl
  | case4 c c' rest hne hopen ih =>
      obtain ⟨rfl, rfl⟩ := hopen
      exact ih h
  | case5 c c' rest hne hne' ih =>
      obtain ⟨ts', hts', rfl⟩ := Option.map_eq_some_iff.mp h
      show [c] ++ renderTokens ts' = _
      rw [ih hts']
      rfl
  | case6 => exact absurd h (by simp)
  | case7 name rest ih =>
      obtain ⟨ts', hts', rfl⟩ := Option.map_eq_some_iff.mp h
      show (dollar :: openBrace :: name ++ [closeBrace]) ++ renderTokens ts' = _
      rw [ih hts']
      simp [openText]
  | case8 name rest hne => exact absurd h (by simp)
  | case9 name c rest hne hne' ih =>
      rw [ih h]
      simp [openText]

/-- The bytes of a token are bytes of the text. -/
theorem render_subset {s : List UInt8} {ts : List Token} (h : tokenize none s = some ts) {t : Token}
    (ht : t ∈ ts) : t.render ⊆ s := by
  have hrender := render_of_tokenize h
  intro b hb
  rw [show s = openText none ++ s from rfl, ← hrender]
  exact List.mem_flatMap.mpr ⟨t, ht, hb⟩

/-! ## The events of a template -/

/-- The events of tokens, with the text since the last placeholder was opened. -/
def tokenEvents : Option (List UInt8) → List Token → List Event
  | _,     []                      => []
  | since, .text c :: ts           =>
      (if c = closeBrace then .stray since else .char c) :: tokenEvents (Scanner.extend since [c]) ts
  | since, .escape :: ts           => .escape :: tokenEvents (Scanner.extend since [dollar, dollar]) ts
  | _,     .placeholder name :: ts => .close name :: tokenEvents (some (name ++ [closeBrace])) ts

/-- The state of a scanner within a placeholder, or outside with `since` behind the pointer. -/
def scannerAt (since : Option (List UInt8)) : Option (List UInt8) → Scanner
  | none      => ⟨0, since, false⟩
  | some name => ⟨1, some name, false⟩

/-- **The events of a template are those of its tokens.** -/
theorem lex_of_tokenize {within : Option (List UInt8)} {s : List UInt8} {ts : List Token}
    (since : Option (List UInt8)) (h : tokenize within s = some ts) :
    (scannerAt since within).lex s = tokenEvents since ts := by
  fun_induction tokenize within s generalizing ts since with
  | case1 => injection h with h; subst h; rfl
  | case2 c =>
      injection h with h; subst h
      by_cases hc : c = closeBrace
      · subst hc
        exact Scanner.lex_close 0 since []
      · show Scanner.lex ⟨0, since, false⟩ [c] = _
        rw [Scanner.lex_char 0 since [] hc (fun _ _ hn => absurd hn (by simp))]
        simp [tokenEvents, hc]
  | case3 c c' rest hpair ih =>
      obtain ⟨ts', hts', rfl⟩ := Option.map_eq_some_iff.mp h
      obtain ⟨rfl, rfl⟩ := hpair
      show Scanner.lex ⟨0, since, false⟩ _ = _
      rw [Scanner.lex_escape, tokenEvents, ← ih _ hts']
      rfl
  | case4 c c' rest hne hopen ih =>
      obtain ⟨rfl, rfl⟩ := hopen
      show Scanner.lex ⟨0, since, false⟩ _ = _
      rw [Scanner.lex_open, if_pos rfl, ← ih since h]
      rfl
  | case5 c c' rest hne hne' ih =>
      obtain ⟨ts', hts', rfl⟩ := Option.map_eq_some_iff.mp h
      show Scanner.lex ⟨0, since, false⟩ _ = _
      by_cases hc : c = closeBrace
      · subst hc
        rw [Scanner.lex_close, if_pos rfl, tokenEvents, if_pos rfl, ← ih _ hts']
        rfl
      · rw [Scanner.lex_char 0 since _ hc ?_, if_pos rfl, tokenEvents, if_neg hc, ← ih _ hts']
        · rfl
        · rintro hd next hn
          obtain rfl : c' = next := by simpa using hn
          exact ⟨fun he => hne ⟨hd, he⟩, fun he => hne' ⟨hd, he⟩⟩
  | case6 => exact absurd h (by simp)
  | case7 name rest ih =>
      obtain ⟨ts', hts', rfl⟩ := Option.map_eq_some_iff.mp h
      show Scanner.lex ⟨1, some name, false⟩ _ = _
      rw [Scanner.lex_close, if_neg (by decide), if_pos rfl, tokenEvents, ← ih _ hts']
      rfl
  | case8 name rest hne => exact absurd h (by simp)
  | case9 name c rest hne hne' ih =>
      show Scanner.lex ⟨1, some name, false⟩ _ = _
      rw [Scanner.lex_char 1 _ _ hne (fun hd => absurd hd hne'), if_neg (by decide), ← ih since h]
      rfl

end Hand2
