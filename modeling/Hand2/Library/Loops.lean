import Mathlib.Data.List.Forall2

/-!
# `Library.Loops` — loops that can fail

Small facts about `foldlM` and `mapM` in `Except`: the last round of a counting loop, and loops whose rounds
all succeed or of which one fails.
-/

namespace Loops

variable {ε : Type}

/-- The last iteration of a counting loop, split off. -/
theorem foldlM_range_succ {A : Type} (f : A → Nat → Except ε A) (n : Nat) (a : A) :
    (List.range (n + 1)).foldlM f a = (List.range n).foldlM f a >>= fun a' => f a' n := by
  rw [List.range_succ, List.foldlM_append]
  congr 1
  funext a'
  rw [List.foldlM_cons]
  cases f a' n <;> rfl

theorem ok_bind {α β : Type} (a : α) (f : α → Except ε β) : (Except.ok a >>= f) = f a := rfl

/-- A sequence that succeeds: so does its first part, and the second from there. -/
theorem bind_eq_ok {α β : Type} {x : Except ε α} {f : α → Except ε β} {b : β} (h : x >>= f = .ok b) :
    ∃ a, x = .ok a ∧ f a = .ok b := by
  cases x with
  | error e => exact absurd h (by simp [Bind.bind, Except.bind])
  | ok a    => exact ⟨a, rfl, h⟩

theorem map_eq_ok {α β : Type} {x : Except ε α} {f : α → β} {b : β} (h : x.map f = .ok b) :
    ∃ a, x = .ok a ∧ f a = b := by
  cases x with
  | error e => cases h
  | ok a =>
      injection h with h
      exact ⟨a, rfl, h⟩

/-! ## Loops over a list -/

section List

variable {α A : Type} {f : A → α → Except ε A}

/-- One round more. -/
theorem foldlM_concat_ok {l : List α} {x : α} {a b c : A} (h : l.foldlM f a = .ok b) (hx : f b x = .ok c) :
    (l ++ [x]).foldlM f a = .ok c := by
  rw [List.foldlM_append, h]
  show List.foldlM f b [x] = .ok c
  rw [List.foldlM_cons, hx]
  rfl

/-- **Invariant rule for a loop that ends**: what every round keeps, the loop keeps. -/
theorem foldlM_ok_invariant (P : A → Prop) {l : List α} (hround : ∀ x ∈ l, ∀ a a', P a → f a x = .ok a' → P a')
    {a a' : A} (hstart : P a) (hrun : l.foldlM f a = .ok a') : P a' := by
  induction l generalizing a with
  | nil =>
      injection hrun with hrun
      rwa [← hrun]
  | cons x l ih =>
      rw [List.foldlM_cons] at hrun
      obtain ⟨b, hx, hrest⟩ := bind_eq_ok hrun
      exact ih (fun y hy => hround y (List.mem_cons_of_mem _ hy)) (hround x List.mem_cons_self a b hstart hx) hrest

/-- Every round of a loop that ends has ended. -/
theorem foldlM_round_ok {l : List α} {x : α} (hx : x ∈ l) {a b : A} (h : l.foldlM f a = .ok b) :
    ∃ c c', f c x = .ok c' := by
  obtain ⟨before, after, rfl⟩ := List.append_of_mem hx
  rw [List.foldlM_append] at h
  obtain ⟨c, -, h⟩ := bind_eq_ok h
  rw [List.foldlM_cons] at h
  obtain ⟨c', hround, -⟩ := bind_eq_ok h
  exact ⟨c, c', hround⟩

/-- **Invariant rule with what is done**: the loop ends, and the invariant holds of the whole list, if every
    round does and takes it one element further. -/
theorem foldlM_prefix_invariant (P : List α → A → Prop) {l : List α} {a : A} (hstart : P [] a)
    (hround : ∀ done x rest, l = done ++ x :: rest → ∀ a, P done a → ∃ a', f a x = .ok a' ∧ P (done ++ [x]) a') :
    ∃ a', l.foldlM f a = .ok a' ∧ P l a' := by
  suffices h : ∀ done rest a, l = done ++ rest → P done a → ∃ a', rest.foldlM f a = .ok a' ∧ P l a' from
    h [] l a rfl hstart
  intro done rest
  induction rest generalizing done with
  | nil =>
      intro a hl ha
      rw [List.append_nil] at hl
      exact ⟨a, rfl, hl ▸ ha⟩
  | cons x rest ih =>
      intro a hl ha
      obtain ⟨b, hx, hb⟩ := hround done x rest hl a ha
      obtain ⟨a', hrun, ha'⟩ := ih (done ++ [x]) b (by rw [hl]; simp) hb
      refine ⟨a', ?_, ha'⟩
      rw [List.foldlM_cons, hx]
      exact hrun

end List

/-- **Loops that agree where they get**: rounds that do the same in all states an invariant admits, and keep it,
    make loops that do the same. -/
theorem foldlM_congr_invariant {α A : Type} {g h : A → α → Except ε A} (P : A → Prop) {l : List α}
    (hround : ∀ x ∈ l, ∀ a, P a → g a x = h a x ∧ ∀ a', h a x = .ok a' → P a') {a : A} (hstart : P a) :
    l.foldlM g a = l.foldlM h a := by
  induction l generalizing a with
  | nil => rfl
  | cons x l ih =>
      obtain ⟨heq, hkeep⟩ := hround x List.mem_cons_self a hstart
      rw [List.foldlM_cons, List.foldlM_cons, heq]
      cases hx : h a x with
      | error e => rfl
      | ok a' => exact ih (fun y hy => hround y (List.mem_cons_of_mem _ hy)) (hkeep a' hx)

/-- **Frame rule**: a part of the state that every round gives back as it was is given back by the loop, which does to
    the rest what the loop without that part does. -/
theorem foldlM_frame {α A B : Type} {g : B × A → α → Except ε (B × A)} {h : A → α → Except ε A} {b : B} {l : List α}
    (hround : ∀ x ∈ l, ∀ a, g (b, a) x = (h a x).map fun a' => (b, a')) (a : A) :
    l.foldlM g (b, a) = (l.foldlM h a).map fun a' => (b, a') := by
  induction l generalizing a with
  | nil => rfl
  | cons x l ih =>
      rw [List.foldlM_cons, List.foldlM_cons, hround x List.mem_cons_self a]
      cases h a x with
      | error e => rfl
      | ok a' => exact ih (fun y hy => hround y (List.mem_cons_of_mem _ hy)) a'

/-- What follows such a loop and does not look at that part either. -/
theorem bind_frame {A B C D : Type} {x : Except ε (B × A)} {y : Except ε A} {b : B} {k : B × A → Except ε C}
    {k' : A → Except ε D} {f : D → C} (hxy : x = y.map fun a => (b, a)) (hk : ∀ a, k (b, a) = (k' a).map f) :
    x >>= k = (y >>= k').map f := by
  rw [hxy]
  cases y with
  | error e => rfl
  | ok a    => exact hk a

/-! ## Counting loops -/

section Range

variable {A : Type} {f : A → Nat → Except ε A}

/-- **Invariant rule.** What holds at the start and is kept by every round holds at the end, and the loop gets
    there. -/
theorem foldlM_range_invariant (P : Nat → A → Prop) {n : Nat} {a : A} (hstart : P 0 a)
    (hround : ∀ y < n, ∀ a, P y a → ∃ a', f a y = .ok a' ∧ P (y + 1) a') :
    ∃ a', (List.range n).foldlM f a = .ok a' ∧ P n a' := by
  induction n with
  | zero => exact ⟨a, rfl, hstart⟩
  | succ n ih =>
      obtain ⟨a', hrun, ha'⟩ := ih (fun y hy => hround y (Nat.lt_succ_of_lt hy))
      obtain ⟨a'', hlast, ha''⟩ := hround n (Nat.lt_succ_self n) a' ha'
      refine ⟨a'', ?_, ha''⟩
      rw [foldlM_range_succ, hrun]
      exact hlast

/-- Rounds that do the same make loops that do the same. -/
theorem foldlM_congr {α : Type} {g h : A → α → Except ε A} {l : List α}
    (heq : ∀ x ∈ l, ∀ a, g a x = h a x) (a : A) : l.foldlM g a = l.foldlM h a := by
  induction l generalizing a with
  | nil => rfl
  | cons x l ih =>
      rw [List.foldlM_cons, List.foldlM_cons, heq x List.mem_cons_self a]
      congr 1
      funext a'
      exact ih (fun x hx => heq x (List.mem_cons_of_mem _ hx)) a'

/-- A loop with a round that always fails does not get to its end. -/
theorem foldlM_ne_ok {α : Type} {g : A → α → Except ε A} {l : List α} {x : α} (hx : x ∈ l)
    (hfail : ∀ a a', g a x ≠ .ok a') (a a' : A) : l.foldlM g a ≠ .ok a' := by
  obtain ⟨before, after, rfl⟩ := List.append_of_mem hx
  rw [List.foldlM_append]
  intro hok
  cases hbefore : before.foldlM g a with
  | error e =>
      rw [hbefore] at hok
      exact absurd hok (by simp [Bind.bind, Except.bind])
  | ok b =>
      rw [hbefore] at hok
      replace hok : (x :: after).foldlM g b = .ok a' := hok
      rw [List.foldlM_cons] at hok
      cases hround : g b x with
      | error e =>
          rw [hround] at hok
          exact absurd hok (by simp [Bind.bind, Except.bind])
      | ok c => exact hfail b c hround

end Range

section MapM

variable {α β : Type} {f : α → Except ε β}

theorem mapM_cons_ok {a : α} {b : β} {l : List α} (h : f a = .ok b) :
    (a :: l).mapM f = (l.mapM f).map (b :: ·) := by
  rw [List.mapM_cons, h]
  cases l.mapM f <;> rfl

/-- A loop that collects what its rounds give. -/
theorem foldlM_collect (l : List α) (done : List β) :
    l.foldlM (fun done a => (f a).map fun b => done ++ [b]) done = (l.mapM f).map fun bs => done ++ bs := by
  induction l generalizing done with
  | nil => exact congrArg Except.ok (List.append_nil done).symm
  | cons a l ih =>
      rw [List.foldlM_cons]
      cases ha : f a with
      | error e =>
          rw [List.mapM_cons, ha]
          rfl
      | ok b =>
          rw [mapM_cons_ok ha]
          refine (ih (done ++ [b])).trans ?_
          cases l.mapM f with
          | error e => rfl
          | ok bs   => exact congrArg Except.ok (List.append_assoc ..)

/-- A loop whose rounds all succeed. -/
theorem mapM_ok {g : α → β} {l : List α} (h : ∀ a ∈ l, f a = .ok (g a)) : l.mapM f = .ok (l.map g) := by
  induction l with
  | nil => rfl
  | cons a l ih =>
      rw [mapM_cons_ok (h a List.mem_cons_self), ih (fun b hb => h b (List.mem_cons_of_mem _ hb))]
      rfl

/-- What a loop that ends has made of each element. -/
theorem forall₂_of_mapM_ok {l : List α} {l' : List β} (h : l.mapM f = .ok l') :
    List.Forall₂ (fun a b => f a = .ok b) l l' := by
  induction l generalizing l' with
  | nil =>
      injection h with h
      subst h
      exact .nil
  | cons a l ih =>
      rw [List.mapM_cons] at h
      obtain ⟨b, ha, h⟩ := bind_eq_ok h
      obtain ⟨bs, hl, h⟩ := bind_eq_ok h
      injection h with h
      subst h
      exact .cons ha (ih hl)

/-- A loop all of whose rounds succeed ends. -/
theorem mapM_ok_of_forall {l : List α} (h : ∀ a ∈ l, ∃ b, f a = .ok b) : ∃ l', l.mapM f = .ok l' := by
  induction l with
  | nil => exact ⟨[], rfl⟩
  | cons a l ih =>
      obtain ⟨b, ha⟩ := h a List.mem_cons_self
      obtain ⟨bs, hl⟩ := ih fun a' ha' => h a' (List.mem_cons_of_mem _ ha')
      rw [mapM_cons_ok ha, hl]
      exact ⟨_, rfl⟩

/-- Every round of a loop that ends has succeeded. -/
theorem mem_of_mapM_ok {l : List α} {l' : List β} (h : l.mapM f = .ok l') : ∀ a ∈ l, ∃ b, f a = .ok b := by
  have hall := forall₂_of_mapM_ok h
  clear h
  induction hall with
  | nil => simp
  | cons hab _ ih => exact List.forall_mem_cons.mpr ⟨⟨_, hab⟩, ih⟩

/-- A loop of which some round fails, each in the same way. -/
theorem mapM_error {e : ε} {l : List α} (h : ∀ a ∈ l, f a = .error e ∨ ∃ b, f a = .ok b)
    (hex : ∃ a ∈ l, f a = .error e) : l.mapM f = .error e := by
  induction l with
  | nil =>
      obtain ⟨a, ha, _⟩ := hex
      exact absurd ha List.not_mem_nil
  | cons a l ih =>
      rcases h a List.mem_cons_self with herr | ⟨b, hok⟩
      · rw [List.mapM_cons, herr]
        rfl
      · have hlater : ∃ a ∈ l, f a = .error e := by
          obtain ⟨a', ha', herr⟩ := hex
          rcases List.mem_cons.mp ha' with rfl | hin
          · rw [hok] at herr
            exact absurd herr (by simp)
          · exact ⟨a', hin, herr⟩
        rw [mapM_cons_ok hok, ih (fun a ha => h a (List.mem_cons_of_mem _ ha)) hlater]
        rfl

/-- A loop whose rounds check their element: it succeeds if all elements are good, and fails if one is not. -/
theorem mapM_checks {e : ε} {good : α → Prop} {g : α → β} {l : List α} (hgood : ∀ a, good a → f a = .ok (g a))
    (hbad : ∀ a, ¬ good a → f a = .error e) :
    ((∀ a ∈ l, good a) → l.mapM f = .ok (l.map g)) ∧ ((∃ a ∈ l, ¬ good a) → l.mapM f = .error e) := by
  constructor
  · intro hall
    exact mapM_ok fun a ha => hgood a (hall a ha)
  · rintro ⟨a, ha, hnot⟩
    refine mapM_error (fun b _ => ?_) ⟨a, ha, hbad a hnot⟩
    by_cases hb : good b
    · exact .inr ⟨g b, hgood b hb⟩
    · exact .inl (hbad b hb)

/-- A loop of which every round succeeds or fails whatever the parameter `c` is, and one fails: it fails in
    the same way for all of them. -/
theorem mapM_error_uniform {γ : Type} {F : γ → α → Except ε β} {l : List α}
    (h : ∀ a ∈ l, (∃ e, ∀ c, F c a = .error e) ∨ ∀ c, ∃ b, F c a = .ok b)
    (hex : ∃ a ∈ l, ∃ e, ∀ c, F c a = .error e) : ∃ e, ∀ c, l.mapM (F c) = .error e := by
  induction l with
  | nil =>
      obtain ⟨a, ha, _⟩ := hex
      exact absurd ha List.not_mem_nil
  | cons a l ih =>
      rcases h a List.mem_cons_self with ⟨e, herr⟩ | hok
      · refine ⟨e, ?_⟩
        intro c
        rw [List.mapM_cons, herr c]
        rfl
      · by_cases hlater : ∃ a ∈ l, ∃ e, ∀ c, F c a = .error e
        · obtain ⟨e, he⟩ := ih (fun a ha => h a (List.mem_cons_of_mem _ ha)) hlater
          refine ⟨e, ?_⟩
          intro c
          obtain ⟨b, hb⟩ := hok c
          rw [mapM_cons_ok hb, he c]
          rfl
        · obtain ⟨a', ha', e, herr⟩ := hex
          rcases List.mem_cons.mp ha' with rfl | hin
          · refine ⟨e, ?_⟩
            intro c
            rw [List.mapM_cons, herr c]
            rfl
          · exact absurd ⟨a', hin, e, herr⟩ hlater

end MapM

/-! ## Loops that leave a state even where they fail -/

section Final

variable {F A : Type}

/-- The state that is left: a failure carries the one it happened in. -/
def final : Except (F × A) A → A
  | .ok a         => a
  | .error (_, a) => a

/-- **Invariant rule for whatever is left**: `P n` is the invariant after `n` rounds, and a round that fails keeps
    the one it started with. -/
theorem foldlM_range_final (P : Nat → A → Prop) {f : A → Nat → Except (F × A) A} {n : Nat} {a : A} (hstart : P 0 a)
    (hround : ∀ y < n, ∀ a, P y a →
      (∀ a', f a y = .ok a' → P (y + 1) a') ∧ ∀ e a', f a y = .error (e, a') → P y a') :
    ∃ y ≤ n, P y (final ((List.range n).foldlM f a)) := by
  suffices h : (∃ a', (List.range n).foldlM f a = .ok a' ∧ P n a') ∨
      ∃ e a', (List.range n).foldlM f a = .error (e, a') ∧ ∃ y ≤ n, P y a' by
    rcases h with ⟨a', hrun, ha'⟩ | ⟨e, a', hrun, hy⟩
    · rw [hrun]
      exact ⟨n, Nat.le_refl n, ha'⟩
    · rw [hrun]
      exact hy
  induction n with
  | zero => exact .inl ⟨a, rfl, hstart⟩
  | succ n ih =>
      rw [foldlM_range_succ]
      rcases ih (fun y hy => hround y (Nat.lt_succ_of_lt hy)) with ⟨a', hrun, ha'⟩ | ⟨e, a', hrun, y, hy, ha'⟩
      · obtain ⟨hok, herror⟩ := hround n (Nat.lt_succ_self n) a' ha'
        rw [hrun]
        show (∃ a'', f a' n = .ok a'' ∧ _) ∨ ∃ e a'', f a' n = .error (e, a'') ∧ _
        cases hlast : f a' n with
        | ok a''   => exact .inl ⟨a'', rfl, hok a'' hlast⟩
        | error ea => exact .inr ⟨ea.1, ea.2, rfl, n, Nat.le_succ n, herror ea.1 ea.2 hlast⟩
      · rw [hrun]
        exact .inr ⟨e, a', rfl, y, Nat.le_succ_of_le hy, ha'⟩

/-- The log of a computation that also gives a value. -/
def logged {α : Type} : Except (F × A) (α × A) → A
  | .ok (_, a)    => a
  | .error (_, a) => a

/-- **Invariant rule for logs**: what holds of the log of a computation, and of the log of whatever follows if it held
    before, holds of the log of both. -/
theorem logged_bind {α β : Type} (P : A → Prop) {x : Except (F × A) (α × A)} {f : α × A → Except (F × A) (β × A)}
    (hx : P (logged x)) (hf : ∀ v a, P a → P (logged (f (v, a)))) : P (logged (x >>= f)) := by
  cases x with
  | ok out    => exact hf out.1 out.2 hx
  | error out => exact hx

/-- **Where a loop stops**: rounds take `s y` to `s (y + 1)` as long as they pass, and the first that does not ends the
    loop with its own error. -/
theorem foldlM_range_stops {ε : Type} {f : A → Nat → Except ε A} (s : Nat → A) (Passes : Nat → Prop)
    (Q : Nat → ε → Prop) {n : Nat} (hpass : ∀ y < n, Passes y → f (s y) y = .ok (s (y + 1)))
    (hstop : ∀ y < n, ¬ Passes y → ∃ e, f (s y) y = .error e ∧ Q y e) :
    ((∀ y < n, Passes y) ∧ (List.range n).foldlM f (s 0) = .ok (s n)) ∨
      ∃ y < n, (∀ z < y, Passes z) ∧ ¬ Passes y ∧ ∃ e, (List.range n).foldlM f (s 0) = .error e ∧ Q y e := by
  induction n with
  | zero => exact .inl ⟨fun y hy => absurd hy (Nat.not_lt_zero y), rfl⟩
  | succ n ih =>
      rw [foldlM_range_succ]
      rcases ih (fun y hy => hpass y (Nat.lt_succ_of_lt hy)) (fun y hy => hstop y (Nat.lt_succ_of_lt hy))
        with ⟨hall, hrun⟩ | ⟨y, hy, hfirst, hfails, e, hrun, hq⟩
      · rw [hrun]
        show (_ ∧ f (s n) n = _) ∨ ∃ y < n + 1, _ ∧ _ ∧ ∃ e, f (s n) n = .error e ∧ _
        by_cases hlast : Passes n
        · refine .inl ⟨fun y hy => ?_, hpass n (Nat.lt_succ_self n) hlast⟩
          rcases Nat.lt_succ_iff_lt_or_eq.mp hy with hy | rfl
          · exact hall y hy
          · exact hlast
        · obtain ⟨e, herror, hq⟩ := hstop n (Nat.lt_succ_self n) hlast
          exact .inr ⟨n, Nat.lt_succ_self n, hall, hlast, e, herror, hq⟩
      · rw [hrun]
        exact .inr ⟨y, Nat.lt_succ_of_lt hy, hfirst, hfails, e, rfl, hq⟩

end Final

end Loops
