import Mathlib.Data.List.Basic

/-!
# `Library.Runs` — runs of a machine with labelled steps

A machine is a function that says what an event does in a state, if it can happen there. A run is the list of
its events, oldest first. Whatever holds at the start and is kept by every step holds after every run
(`Run.invariant`); the events are part of what an invariant may speak of, so nothing has to be recorded in the
state for the sake of a proof.
-/

namespace Machine

variable {σ ε : Type}

/-- The events `es` lead from `s` to `s'`. -/
inductive Run (step : σ → ε → Option σ) (s : σ) : List ε → σ → Prop where
  | start : Run step s [] s
  | step {es : List ε} {s' s'' : σ} {e : ε} (hrun : Run step s es s') (hstep : step s' e = some s'') :
      Run step s (es ++ [e]) s''

variable {step : σ → ε → Option σ} {s s' s'' : σ} {es es' : List ε}

/-- **Invariant rule.** -/
theorem Run.invariant (P : List ε → σ → Prop) (hstart : P [] s)
    (hkeep : ∀ es s' e s'', P es s' → step s' e = some s'' → P (es ++ [e]) s'') (hrun : Run step s es s') :
    P es s' := by
  induction hrun with
  | start => exact hstart
  | step _ hstep ih => exact hkeep _ _ _ _ ih hstep

/-- **Ranking rule.** Events that lower a measure, which no other event raises, happen at most as often as it is
    high; `P` is what holds along the run, and `Q` of its events. -/
theorem Run.countP_add_le (P : σ → Prop) (Q : ε → Prop) (own : ε → Bool) (measure : σ → Nat) (hstart : P s)
    (hkeep : ∀ s' e s'', P s' → Q e → step s' e = some s'' → P s'')
    (hown : ∀ s' e s'', P s' → Q e → step s' e = some s'' → own e = true → measure s'' < measure s')
    (hother : ∀ s' e s'', P s' → Q e → step s' e = some s'' → own e = false → measure s'' ≤ measure s')
    (hrun : Run step s es s') (hall : ∀ e ∈ es, Q e) : P s' ∧ es.countP own + measure s' ≤ measure s := by
  induction hrun with
  | start => exact ⟨hstart, by simp⟩
  | @step es s' s'' e _ hstep ih =>
      obtain ⟨hP, hle⟩ := ih (fun e he => hall e (List.mem_append_left _ he))
      have hQ : Q e := hall e (by simp)
      refine ⟨hkeep _ _ _ hP hQ hstep, ?_⟩
      rw [List.countP_append, List.countP_singleton]
      cases he : own e with
      | true =>
          have hlt := hown _ _ _ hP hQ hstep he
          simp only [if_true]
          omega
      | false =>
          have hle' := hother _ _ _ hP hQ hstep he
          simp only [Bool.false_eq_true, if_false]
          omega

/-- Every event of a run happens in a state in which it may. -/
def Obeys (step : σ → ε → Option σ) (s : σ) (C : σ → ε → Prop) (es : List ε) : Prop :=
  ∀ before e after s', es = before ++ e :: after → Run step s before s' → C s' e

/-- **Invariant rule, for runs that obey a condition.** -/
theorem Run.invariant_of_obeys (P : σ → Prop) {C : σ → ε → Prop} (hstart : P s)
    (hkeep : ∀ s' e s'', P s' → C s' e → step s' e = some s'' → P s'') (hrun : Run step s es s')
    (hobeys : Obeys step s C es) : P s' := by
  induction hrun with
  | start => exact hstart
  | @step es s' s'' e hrun hstep ih =>
      have hbefore : Obeys step s C es := by
        rintro before e' after t rfl ht
        exact hobeys before e' (after ++ [e]) t (by simp) ht
      exact hkeep _ _ _ (ih hbefore) (hobeys es e [] s' rfl hrun) hstep

/-- Runs compose. -/
theorem Run.append (h : Run step s es s') (h' : Run step s' es' s'') : Run step s (es ++ es') s'' := by
  induction h' with
  | start => rwa [List.append_nil]
  | step _ hstep ih =>
      rw [← List.append_assoc]
      exact ih.step hstep

/-- The first event of a run. -/
theorem Run.cons {e : ε} (hstep : step s e = some s') (h : Run step s' es s'') : Run step s (e :: es) s'' :=
  (Run.start.step hstep).append h

/-- `t` becomes `t'` by an event, or stays. -/
def Follows {σ' ε' : Type} (step' : σ' → ε' → Option σ') (t t' : σ') : Option ε' → Prop
  | none   => t' = t
  | some a => step' t a = some t'

/-- **Projection rule.** A machine whose every event is one of another machine's, or none, as far as that one's state
    goes, runs as that machine does. -/
theorem Run.project {σ' ε' : Type} {step' : σ' → ε' → Option σ'} (proj : σ → σ') (act : ε → Option ε')
    (hfollows : ∀ s e s', step s e = some s' → Follows step' (proj s) (proj s') (act e)) (h : Run step s es s') :
    Run step' (proj s) (es.filterMap act) (proj s') := by
  induction h with
  | start => exact .start
  | @step es s' s'' e _ hstep ih =>
      have hone := hfollows _ _ _ hstep
      rw [List.filterMap_append]
      cases he : act e with
      | none =>
          rw [he] at hone
          simp only [Follows] at hone
          simpa [he, hone] using ih
      | some a =>
          rw [he] at hone
          have hact : [e].filterMap act = [a] := by simp [he]
          rw [hact]
          exact ih.step hone

/-- A run is the result of its events. -/
theorem run_iff_foldlM : Run step s es s' ↔ es.foldlM step s = some s' := by
  constructor
  · intro h
    induction h with
    | start => rfl
    | step _ hstep ih =>
        rw [List.foldlM_append, ih]
        simp [hstep]
  · intro h
    induction es generalizing s with
    | nil =>
        injection h with h
        exact h ▸ Run.start
    | cons e es ih =>
        rw [List.foldlM_cons] at h
        obtain ⟨t, ht, hrest⟩ := Option.bind_eq_some_iff.mp h
        exact Run.cons ht (ih hrest)

theorem Obeys.nil {C : σ → ε → Prop} : Obeys step s C [] := by
  intro before e after s' h
  cases before <;> cases h

/-- A condition is checked event by event. -/
theorem Obeys.cons {C : σ → ε → Prop} {e : ε} (hstep : step s e = some s') (he : C s e) (h : Obeys step s' C es) :
    Obeys step s C (e :: es) := by
  intro before e' after t heq hrun
  rw [run_iff_foldlM] at hrun
  cases before with
  | nil =>
      obtain ⟨rfl, -⟩ := List.cons.inj heq
      obtain rfl := Option.some.inj hrun
      exact he
  | cons first before =>
      obtain ⟨rfl, rfl⟩ := List.cons.inj heq
      rw [List.foldlM_cons, hstep] at hrun
      exact h before e' after t rfl (run_iff_foldlM.mpr hrun)

end Machine
