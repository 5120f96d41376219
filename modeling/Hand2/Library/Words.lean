import Mathlib.Data.List.TakeWhile
import Mathlib.Data.List.Basic

/-!
# `Library.Words` — the words of a text

Some items of a text are blank. Its words are the maximal runs of the others, each with where it starts
(`mem_runs_iff`), from left to right (`pairwise_runs`). A text that was written word by word, with blanks around the
words and at least one between two of them, has just these words (`words_layout`).
-/

namespace Words

variable {α : Type} (Blank : α → Prop) [DecidablePred Blank]

/-- `word` is a maximal run of items of `cs` that are not blank, and starts at `p`. -/
def IsRunAt (cs : List α) (p : Nat) (word : List α) : Prop :=
  word ≠ [] ∧ (∀ c ∈ word, ¬ Blank c) ∧
    ∃ pre post, cs = pre ++ (word ++ post) ∧ pre.length = p ∧
      (∀ c ∈ pre.getLast?, Blank c) ∧ ∀ c ∈ post.head?, Blank c

/-- The word at the start of `cs`. -/
def wordAt (cs : List α) : List α := cs.takeWhile (¬ Blank ·)

/-- The runs that start in `cs`, which starts at `p` itself; `fresh` if there is a blank in front of it, or nothing. -/
def runsFrom : Bool → Nat → List α → List (Nat × List α)
  | _,     _, []      => []
  | fresh, p, c :: cs =>
      if fresh ∧ ¬ Blank c then (p, wordAt Blank (c :: cs)) :: runsFrom (Blank c) (p + 1) cs
      else runsFrom (Blank c) (p + 1) cs

/-- The maximal runs of items that are not blank, with where they start. -/
def runs (cs : List α) : List (Nat × List α) := runsFrom Blank true 0 cs

/-- The words of a text. -/
def words (cs : List α) : List (List α) := (runs Blank cs).map Prod.snd

/-- A text written word by word, the gaps around its words counted from `i`. -/
def layout (gap : Nat → List α) : Nat → List (List α) → List α
  | i, []            => gap i
  | i, word :: words => gap i ++ (word ++ layout gap (i + 1) words)

/-! ## The runs are all maximal runs -/

section Runs

variable {Blank}

/-- A word that ends at a blank, or at the end. -/
theorem wordAt_append {word post : List α} (hword : ∀ c ∈ word, ¬ Blank c) (hpost : ∀ c ∈ post.head?, Blank c) :
    wordAt Blank (word ++ post) = word := by
  unfold wordAt
  rw [List.takeWhile_append_of_pos (by simpa using hword)]
  cases post with
  | nil => simp
  | cons c post => simp [hpost c rfl]

theorem wordAt_clean (cs : List α) : ∀ c ∈ wordAt Blank cs, ¬ Blank c := by
  intro c hc
  simpa using List.mem_takeWhile_imp hc

theorem wordAt_ends (cs : List α) : ∃ post, cs = wordAt Blank cs ++ post ∧ ∀ c ∈ post.head?, Blank c := by
  refine ⟨cs.dropWhile (¬ Blank ·), List.takeWhile_append_dropWhile.symm, ?_⟩
  intro c hc
  have hnot := List.head?_dropWhile_not (fun c => decide ¬ Blank c) cs
  rw [Option.mem_def.mp hc] at hnot
  simpa using hnot

/-- Which run starts behind `before`. -/
theorem isRunAt_length_iff {before : List α} {c : α} {cs word : List α} :
    IsRunAt Blank (before ++ c :: cs) before.length word ↔
      (∀ d ∈ before.getLast?, Blank d) ∧ ¬ Blank c ∧ word = wordAt Blank (c :: cs) := by
  constructor
  · rintro ⟨hne, hclean, pre, post, hsplit, hlen, hpre, hpost⟩
    obtain ⟨rfl, hrest⟩ := List.append_inj hsplit hlen.symm
    cases word with
    | nil => exact absurd rfl hne
    | cons d word =>
        obtain rfl : c = d := (List.cons.inj hrest).1
        refine ⟨hpre, hclean c (List.mem_cons_self ..), ?_⟩
        rw [hrest, wordAt_append hclean hpost]
  · rintro ⟨hbefore, hc, rfl⟩
    obtain ⟨post, hcs, hpost⟩ : ∃ post, c :: cs = wordAt Blank (c :: cs) ++ post ∧ ∀ d ∈ post.head?, Blank d :=
      wordAt_ends (c :: cs)
    refine ⟨?_, wordAt_clean _, before, post, ?_, rfl, hbefore, hpost⟩
    · simp [wordAt, hc]
    · rw [← hcs]

/-- The runs that start in a part of a text. -/
theorem mem_runsFrom_iff {cs : List α} (before : List α) (fresh : Bool)
    (hfresh : fresh = true ↔ ∀ d ∈ before.getLast?, Blank d) (p : Nat) (word : List α) :
    (p, word) ∈ runsFrom Blank fresh before.length cs ↔
      IsRunAt Blank (before ++ cs) p word ∧ before.length ≤ p := by
  induction cs generalizing before fresh with
  | nil =>
      constructor
      · intro h
        exact absurd h List.not_mem_nil
      · -- a run is not empty, so it starts inside the text
        rintro ⟨⟨hne, -, pre, post, hsplit, rfl, -⟩, hle⟩
        have hlen := congrArg List.length hsplit
        have hpos := List.length_pos_iff.mpr hne
        simp only [List.length_append, List.length_nil] at hlen
        omega
  | cons c cs ih =>
      have hnext := ih (before ++ [c]) (Blank c) (by simp)
      rw [List.append_assoc, List.singleton_append, List.length_append, List.length_singleton] at hnext
      have hhere : IsRunAt Blank (before ++ c :: cs) before.length word ↔
          fresh = true ∧ ¬ Blank c ∧ word = wordAt Blank (c :: cs) := by
        rw [hfresh]
        exact isRunAt_length_iff
      have hcases : IsRunAt Blank (before ++ c :: cs) p word ∧ before.length ≤ p ↔
          p = before.length ∧ (fresh = true ∧ ¬ Blank c ∧ word = wordAt Blank (c :: cs)) ∨
            IsRunAt Blank (before ++ c :: cs) p word ∧ before.length + 1 ≤ p := by
        rw [← hhere]
        constructor
        · rintro ⟨hrun, hle⟩
          rcases Nat.eq_or_lt_of_le hle with heq | hlt
          · exact .inl ⟨heq.symm, heq ▸ hrun⟩
          · exact .inr ⟨hrun, hlt⟩
        · rintro (⟨rfl, hrun⟩ | ⟨hrun, hlt⟩)
          · exact ⟨hrun, Nat.le_refl _⟩
          · exact ⟨hrun, Nat.le_of_succ_le hlt⟩
      rw [hcases, runsFrom, ← hnext]
      split
      · next hstart => simp [hstart]
      · next hstart =>
          constructor
          · exact .inr
          · rintro (⟨-, hf, hc, -⟩ | h)
            · exact absurd ⟨hf, hc⟩ hstart
            · exact h

/-- **The runs** are the maximal runs. -/
theorem mem_runs_iff {cs : List α} (p : Nat) (word : List α) :
    (p, word) ∈ runs Blank cs ↔ IsRunAt Blank cs p word := by
  have h : (p, word) ∈ runsFrom Blank true 0 cs ↔ IsRunAt Blank ([] ++ cs) p word ∧ 0 ≤ p :=
    mem_runsFrom_iff [] true (by simp) p word
  rw [runs]
  simpa using h

/-- A word is part of its text. -/
theorem mem_of_mem_words {cs word : List α} {c : α} (hword : word ∈ words Blank cs) (hc : c ∈ word) : c ∈ cs := by
  obtain ⟨⟨p, _⟩, hrun, rfl⟩ := List.mem_map.mp hword
  obtain ⟨-, -, pre, post, rfl, -⟩ := (mem_runs_iff p _).mp hrun
  exact List.mem_append_right _ (List.mem_append_left _ hc)

theorem le_of_mem_runsFrom {cs : List α} {fresh : Bool} {p : Nat} :
    ∀ run ∈ runsFrom Blank fresh p cs, p ≤ run.1 := by
  induction cs generalizing fresh p with
  | nil => simp [runsFrom]
  | cons c cs ih =>
      intro run hrun
      unfold runsFrom at hrun
      split at hrun
      · rcases List.mem_cons.mp hrun with rfl | hrun
        · exact Nat.le_refl _
        · exact Nat.le_of_succ_le (ih run hrun)
      · exact Nat.le_of_succ_le (ih run hrun)

theorem pairwise_runsFrom {cs : List α} {fresh : Bool} {p : Nat} :
    (runsFrom Blank fresh p cs).Pairwise (fun run later => run.1 < later.1) := by
  induction cs generalizing fresh p with
  | nil => exact List.Pairwise.nil
  | cons c cs ih =>
      unfold runsFrom
      split
      · exact List.Pairwise.cons (fun run hrun => le_of_mem_runsFrom run hrun) ih
      · exact ih

/-- The runs come from left to right. -/
theorem pairwise_runs (cs : List α) : (runs Blank cs).Pairwise (fun run later => run.1 < later.1) := pairwise_runsFrom

/-- `texts` are the maximal runs of `cs`, from left to right. -/
def IsWords (Blank : α → Prop) (cs : List α) (texts : List (List α)) : Prop :=
  ∃ found : List (Nat × List α), found.map Prod.snd = texts ∧
    found.Pairwise (fun run later => run.1 < later.1) ∧ ∀ p word, (p, word) ∈ found ↔ IsRunAt Blank cs p word

/-- **The words** are the maximal runs, from left to right. -/
theorem isWords_words (cs : List α) : IsWords Blank cs (words Blank cs) :=
  ⟨runs Blank cs, rfl, pairwise_runs cs, mem_runs_iff⟩

/-! ## Writing words and reading them back -/

/-- The words that start in a part of a text. Where the part stands in the text makes no difference. -/
def wordsFrom (Blank : α → Prop) [DecidablePred Blank] (fresh : Bool) (cs : List α) : List (List α) :=
  (runsFrom Blank fresh 0 cs).map Prod.snd

theorem map_snd_runsFrom {cs : List α} {fresh : Bool} (p : Nat) :
    (runsFrom Blank fresh p cs).map Prod.snd = wordsFrom Blank fresh cs := by
  unfold wordsFrom
  generalize 0 = q
  induction cs generalizing fresh p q with
  | nil => rfl
  | cons c cs ih =>
      unfold runsFrom
      split
      · rw [List.map_cons, List.map_cons, ih (p + 1) (q + 1)]
      · exact ih (p + 1) (q + 1)

theorem wordsFrom_cons (fresh : Bool) (c : α) (cs : List α) :
    wordsFrom Blank fresh (c :: cs) =
      if fresh ∧ ¬ Blank c then wordAt Blank (c :: cs) :: wordsFrom Blank (Blank c) cs
      else wordsFrom Blank (Blank c) cs := by
  rw [wordsFrom, runsFrom]
  split
  · rw [List.map_cons, map_snd_runsFrom]
  · rw [map_snd_runsFrom]

/-- No word starts inside a gap. -/
theorem wordsFrom_gap {gap : List α} (hgap : ∀ c ∈ gap, Blank c) (fresh : Bool) (cs : List α)
    (hfresh : gap = [] → fresh = true) : wordsFrom Blank fresh (gap ++ cs) = wordsFrom Blank true cs := by
  induction gap generalizing fresh with
  | nil =>
      rw [hfresh rfl]
      rfl
  | cons c gap ih =>
      have hc : Blank c := hgap c (List.mem_cons_self ..)
      rw [List.cons_append, wordsFrom_cons, if_neg (fun h => h.2 hc)]
      exact ih (fun d hd => hgap d (List.mem_cons_of_mem _ hd)) _ (by simp [hc])

/-- No word starts inside a word. -/
theorem wordsFrom_word {word : List α} (hword : ∀ c ∈ word, ¬ Blank c) (cs : List α) :
    wordsFrom Blank false (word ++ cs) = wordsFrom Blank false cs := by
  induction word with
  | nil => rfl
  | cons c word ih =>
      have hc : ¬ Blank c := hword c (List.mem_cons_self ..)
      rw [List.cons_append, wordsFrom_cons, if_neg (fun h => Bool.false_ne_true h.1), decide_eq_false hc]
      exact ih fun d hd => hword d (List.mem_cons_of_mem _ hd)

/-- In front of a blank it makes no difference what stands before. -/
theorem wordsFrom_fresh {cs : List α} (hcs : ∀ c ∈ cs.head?, Blank c) :
    wordsFrom Blank false cs = wordsFrom Blank true cs := by
  cases cs with
  | nil => rfl
  | cons c cs =>
      have hc : Blank c := hcs c rfl
      rw [wordsFrom_cons, wordsFrom_cons, if_neg (fun h => h.2 hc), if_neg (fun h => h.2 hc)]

/-- The words of a layout, from gap `i` on. -/
theorem wordsFrom_layout {gap : Nat → List α} (hgap : ∀ i, ∀ c ∈ gap i, Blank c) {texts : List (List α)}
    (htexts : ∀ word ∈ texts, word ≠ [] ∧ ∀ c ∈ word, ¬ Blank c) (i : Nat)
    (hbetween : ∀ j, i < j → j < i + texts.length → gap j ≠ []) :
    wordsFrom Blank true (layout gap i texts) = texts := by
  induction texts generalizing i with
  | nil =>
      show wordsFrom Blank true (gap i) = []
      rw [← List.append_nil (gap i), wordsFrom_gap (hgap i) true [] (fun _ => rfl)]
      rfl
  | cons word texts ih =>
      obtain ⟨hne, hclean⟩ := htexts word (List.mem_cons_self ..)
      have hrest := ih (fun w hw => htexts w (List.mem_cons_of_mem _ hw)) (i + 1) (by
        intro j hj hlt
        exact hbetween j (by omega) (by simp only [List.length_cons]; omega))
      -- the word ends at the gap behind it, or at the end of the text
      have hends : ∀ c ∈ (layout gap (i + 1) texts).head?, Blank c := by
        have hhead : ∀ rest : List α, gap (i + 1) ≠ [] → ∀ c ∈ (gap (i + 1) ++ rest).head?, Blank c := by
          intro rest hgapne c hc
          rw [List.head?_append_of_ne_nil _ hgapne] at hc
          exact hgap (i + 1) c (List.mem_of_mem_head? hc)
        cases texts with
        | nil =>
            intro c hc
            exact hgap (i + 1) c (List.mem_of_mem_head? hc)
        | cons next texts =>
            exact hhead _ (hbetween (i + 1) (by omega) (by simp only [List.length_cons]; omega))
      show wordsFrom Blank true (gap i ++ (word ++ layout gap (i + 1) texts)) = word :: texts
      rw [wordsFrom_gap (hgap i) true _ (fun _ => rfl)]
      cases word with
      | nil => exact absurd rfl hne
      | cons c word =>
          have hc : ¬ Blank c := hclean c (List.mem_cons_self ..)
          rw [List.cons_append, wordsFrom_cons, if_pos ⟨rfl, hc⟩, ← List.cons_append, wordAt_append hclean hends,
            decide_eq_false hc, wordsFrom_word (fun d hd => hclean d (List.mem_cons_of_mem _ hd)),
            wordsFrom_fresh hends, hrest]

/-- **The way back.** Words written with gaps around them, none of those between two words empty, are the words of
    the text. -/
theorem words_layout {gap : Nat → List α} (hgap : ∀ i, ∀ c ∈ gap i, Blank c) {texts : List (List α)}
    (htexts : ∀ word ∈ texts, word ≠ [] ∧ ∀ c ∈ word, ¬ Blank c)
    (hbetween : ∀ i, 0 < i → i < texts.length → gap i ≠ []) : words Blank (layout gap 0 texts) = texts :=
  wordsFrom_layout hgap htexts 0 (by simpa using hbetween)

end Runs

end Words
