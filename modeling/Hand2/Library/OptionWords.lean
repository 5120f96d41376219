import Mathlib.Data.List.Basic

/-!
# `Library.OptionWords` — options in front of arguments

A list of words begins with options, some of which take the word behind them, and goes on with arguments. The loop
(`readOptions`) takes options while the next word is one; what it takes is described by a list of items
(`readOptions_iff`), each an option alone or an option with its word.
-/

namespace OptionWords

variable {ω α ε : Type}

/-- What an option does: on its own, or with the word behind it, if there is one. -/
inductive Handling (ω α ε : Type) where
  | flag (f : α → α)
  | valued (f : Option ω → α → Except ε α)

/-- The loop over the options; what is left are the arguments. -/
def readOptions (isOption : ω → Bool) (handle : ω → Handling ω α ε) : List ω → α → Except ε (α × List ω)
  | [],           a => .ok (a, [])
  | word :: rest, a =>
      if isOption word then
        match handle word, rest with
        | .flag f,   rest          => readOptions isOption handle rest (f a)
        | .valued f, []            => (f none a).map (fun a => (a, []))
        | .valued f, value :: rest =>
            match f (some value) a with
            | .error e => .error e
            | .ok a    => readOptions isOption handle rest a
      else .ok (a, word :: rest)

/-- An option as it is written, with its word or without. -/
inductive Item (ω : Type) where
  | alone (option : ω)
  | followed (option value : ω)

def Item.words : Item ω → List ω
  | .alone option          => [option]
  | .followed option value => [option, value]

theorem words_replicate (k : Nat) (option : ω) :
    (List.replicate k (Item.alone option)).flatMap Item.words = List.replicate k option := by
  induction k with
  | zero => rfl
  | succ k ih =>
      rw [List.replicate_succ, List.flatMap_cons, ih]
      rfl

variable (isOption : ω → Bool) (handle : ω → Handling ω α ε)

/-- The item is an option that takes what is written behind it. -/
def Item.Fits : Item ω → Prop
  | .alone option      => isOption option = true ∧ ∃ f, handle option = .flag f
  | .followed option _ => isOption option = true ∧ ∃ f, handle option = .valued f

/-- What an item does. -/
def Item.apply (a : α) : Item ω → Except ε α
  | .alone option =>
      match handle option with
      | .flag f   => .ok (f a)
      | .valued f => f none a
  | .followed option value =>
      match handle option with
      | .flag f   => .ok (f a)
      | .valued f => f (some value) a

/-- No option comes next. -/
def Stops (rest : List ω) : Prop := ∀ word ∈ rest.head?, isOption word = false

/-- An option at the end of the line, whose word is missing. -/
def Item.Dangles : Item ω → Prop
  | .alone option => isOption option = true ∧ ∃ f, handle option = .valued f
  | .followed _ _ => False

variable {isOption handle} {args rest : List ω} {a b : α} {e : ε}

theorem readOptions_stop (handle : ω → Handling ω α ε) (h : Stops isOption args) (a : α) :
    readOptions isOption handle args a = .ok (a, args) := by
  cases args with
  | nil => rfl
  | cons word rest =>
      unfold readOptions
      rw [h word rfl]
      rfl

/-- The loop takes an item, and goes on with what it did. -/
theorem readOptions_item {item : Item ω} (h : item.Fits isOption handle) (a : α) :
    readOptions isOption handle (item.words ++ rest) a
      = (item.apply handle a).bind (readOptions isOption handle rest) := by
  cases item with
  | alone option =>
      obtain ⟨hoption, f, hf⟩ := h
      simp [Item.words, Item.apply, readOptions, hoption, hf, Except.bind]
  | followed option value =>
      obtain ⟨hoption, f, hf⟩ := h
      show readOptions isOption handle (option :: value :: rest) a = _
      rw [readOptions.eq_def]
      simp only [Item.apply, hoption, hf, if_true]
      cases f (some value) a <;> rfl

/-- So it takes a list of them. -/
theorem readOptions_items {items : List (Item ω)} (h : ∀ item ∈ items, item.Fits isOption handle) (a : α) :
    readOptions isOption handle (items.flatMap Item.words ++ rest) a
      = (items.foldlM (Item.apply handle) a).bind (readOptions isOption handle rest) := by
  induction items generalizing a with
  | nil => rfl
  | cons item items ih =>
      rw [List.flatMap_cons, List.append_assoc, readOptions_item (h item List.mem_cons_self), List.foldlM_cons]
      cases item.apply handle a with
      | error e => rfl
      | ok a    => exact ih (fun item hitem => h item (List.mem_cons_of_mem _ hitem)) a

theorem readOptions_dangling {item : Item ω} (h : item.Dangles isOption handle) (a : α) :
    readOptions isOption handle item.words a = (item.apply handle a).map (fun a => (a, [])) := by
  cases item with
  | alone option =>
      obtain ⟨hoption, f, hf⟩ := h
      simp [Item.words, Item.apply, readOptions, hoption, hf]
  | followed option value => cases h

/-- Every line is options, and then arguments or an option whose word is missing. -/
theorem exists_items (isOption : ω → Bool) (handle : ω → Handling ω α ε) (args : List ω) :
    ∃ items : List (Item ω), (∀ item ∈ items, item.Fits isOption handle) ∧
      ((∃ rest, Stops isOption rest ∧ args = items.flatMap Item.words ++ rest) ∨
        ∃ last : Item ω, last.Dangles isOption handle ∧ args = items.flatMap Item.words ++ last.words) := by
  induction hlen : args.length using Nat.strongRecOn generalizing args with
  | _ n ih =>
      cases args with
      | nil => exact ⟨[], nofun, .inl ⟨[], nofun, rfl⟩⟩
      | cons word rest =>
          by_cases hoption : isOption word = true
          · -- the option is taken, and the line behind it is shorter
            have hitem : ∀ (item : Item ω) {rest' : List ω}, item.Fits isOption handle →
                word :: rest = item.words ++ rest' → rest'.length < n →
                ∃ items : List (Item ω), (∀ item ∈ items, item.Fits isOption handle) ∧
                  ((∃ rest'', Stops isOption rest'' ∧ word :: rest = items.flatMap Item.words ++ rest'') ∨
                    ∃ last : Item ω, last.Dangles isOption handle ∧
                      word :: rest = items.flatMap Item.words ++ last.words) := by
              intro item rest' hfits heq hlt
              obtain ⟨items, hall, hend⟩ := ih _ hlt rest' rfl
              refine ⟨item :: items, List.forall_mem_cons.mpr ⟨hfits, hall⟩, ?_⟩
              rcases hend with ⟨rest'', hstops, hrest⟩ | ⟨last, hdangles, hrest⟩
              · exact .inl ⟨rest'', hstops, by rw [heq, hrest, List.flatMap_cons, List.append_assoc]⟩
              · exact .inr ⟨last, hdangles, by rw [heq, hrest, List.flatMap_cons, List.append_assoc]⟩
            cases hhandle : handle word with
            | flag f =>
                refine hitem (.alone word) ⟨hoption, f, hhandle⟩ rfl ?_
                rw [← hlen]
                exact Nat.lt_succ_self _
            | valued f =>
                cases rest with
                | nil => exact ⟨[], nofun, .inr ⟨.alone word, ⟨hoption, f, hhandle⟩, rfl⟩⟩
                | cons value rest =>
                    refine hitem (.followed word value) ⟨hoption, f, hhandle⟩ rfl ?_
                    simp only [List.length_cons] at hlen
                    omega
          · refine ⟨[], nofun, .inl ⟨word :: rest, ?_, rfl⟩⟩
            rintro _ ⟨⟩
            simpa using hoption

theorem foldlM_concat (items : List (Item ω)) (last : Item ω) (a : α) :
    (items ++ [last]).foldlM (Item.apply handle) a
      = (items.foldlM (Item.apply handle) a).bind fun a => last.apply handle a := by
  rw [List.foldlM_append]
  cases items.foldlM (Item.apply handle) a with
  | error e => rfl
  | ok b =>
      show (last.apply handle b >>= pure) = last.apply handle b
      exact bind_pure _

/-- **What the loop takes**: items, up to a word that is no option, or to the end of the line. -/
theorem readOptions_iff :
    readOptions isOption handle args a = .ok (b, rest) ↔
      ∃ items : List (Item ω), (∀ item ∈ items, item.Fits isOption handle) ∧
        ((Stops isOption rest ∧ args = items.flatMap Item.words ++ rest ∧ items.foldlM (Item.apply handle) a = .ok b) ∨
          ∃ last : Item ω, last.Dangles isOption handle ∧ rest = [] ∧ args = items.flatMap Item.words ++ last.words ∧
            (items ++ [last]).foldlM (Item.apply handle) a = .ok b) := by
  constructor
  · intro h
    obtain ⟨items, hall, ⟨rest', hstops, rfl⟩ | ⟨last, hdangles, rfl⟩⟩ :=
      exists_items isOption handle args
    · rw [readOptions_items hall] at h
      cases hfold : items.foldlM (Item.apply handle) a with
      | error e =>
          rw [hfold] at h
          cases h
      | ok b' =>
          rw [hfold] at h
          have hstop := h.symm.trans (readOptions_stop handle hstops b')
          cases hstop
          exact ⟨items, hall, .inl ⟨hstops, rfl, hfold⟩⟩
    · rw [readOptions_items hall] at h
      cases hfold : items.foldlM (Item.apply handle) a with
      | error e =>
          rw [hfold] at h
          cases h
      | ok b' =>
          rw [hfold] at h
          have hlast := h.symm.trans (readOptions_dangling hdangles b')
          cases happly : last.apply handle b' with
          | error e =>
              rw [happly] at hlast
              cases hlast
          | ok b'' =>
              rw [happly] at hlast
              cases hlast
              refine ⟨items, hall, .inr ⟨last, hdangles, rfl, rfl, ?_⟩⟩
              rw [foldlM_concat, hfold]
              exact happly
  · rintro ⟨items, hall, ⟨hstops, rfl, hfold⟩ | ⟨last, hdangles, rfl, rfl, hfold⟩⟩
    · rw [readOptions_items hall, hfold]
      exact readOptions_stop handle hstops b
    · rw [foldlM_concat] at hfold
      rw [readOptions_items hall]
      cases hitems : items.foldlM (Item.apply handle) a with
      | error e =>
          rw [hitems] at hfold
          cases hfold
      | ok b' =>
          rw [hitems] at hfold
          have hlast : last.apply handle b' = .ok b := hfold
          show readOptions isOption handle last.words b' = _
          rw [readOptions_dangling hdangles, hlast]
          rfl

end OptionWords
