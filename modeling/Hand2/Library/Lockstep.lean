import Hand2.Library.Loops
import Mathlib.Data.List.Basic
import Mathlib.Logic.Function.Basic

/-!
# `Library.Lockstep` — independent machines driven in batches and rounds

A loop over `count` cells that serves them `width` at a time, and within a batch asks all unfinished cells
for one step per round until every cell of the batch has finished:

```
for(at = 0; at < count; at += width)
    for(round = first; !all done; ++round)
        for(i = 0; i < min(count - at, width); ++i)
            if(!done[i]) step(at, i, round)
```

Cells only ever touch their own state, so the outcome for a cell is that of running it alone (`soloRun`), no
matter how the others share its batch. A step may fail, and then the whole loop does. `run_cells` takes the
cells' own runs to the run of the loop, `soloRun_of_run` takes a run of the loop back to theirs.
-/

namespace Lockstep

variable {S ε : Type}

/-! ## A machine on its own -/

/-- Run one cell alone from round `round` for at most `n` rounds, up to and including the round it reports
    to be its last; `timeout` if it is not done by then. -/
def soloRun (timeout : ε) (machine : Nat → S → Except ε (S × Bool)) : Nat → Nat → S → Except ε S
  | 0,     _,     _ => .error timeout
  | n + 1, round, c => do
      let out ← machine round c
      if out.2 then .ok out.1 else soloRun timeout machine n (round + 1) out.1

section SoloRun

variable {timeout : ε} {machine : Nat → S → Except ε (S × Bool)}

theorem soloRun_succ {round : Nat} {c : S} {out : S × Bool} (h : machine round c = .ok out) (n : Nat) :
    soloRun timeout machine (n + 1) round c
      = if out.2 then .ok out.1 else soloRun timeout machine n (round + 1) out.1 := by
  rw [soloRun, h]
  rfl

theorem soloRun_error {round : Nat} {c : S} {e : ε} (h : machine round c = .error e) (n : Nat) :
    soloRun timeout machine (n + 1) round c = .error e := by
  rw [soloRun, h]
  rfl

/-- With more rounds it ends as it did, unless it had run out of them. -/
theorem soloRun_fuel {n n' : Nat} (hle : n ≤ n') (round : Nat) (c : S) :
    soloRun timeout machine n' round c = soloRun timeout machine n round c ∨
      soloRun timeout machine n round c = .error timeout := by
  induction n generalizing n' round c with
  | zero => exact .inr rfl
  | succ n ih =>
      obtain ⟨k, rfl⟩ : ∃ k, n' = k + 1 := ⟨n' - 1, by omega⟩
      cases hout : machine round c with
      | error e =>
          rw [soloRun_error hout, soloRun_error hout]
          exact .inl rfl
      | ok out =>
          rw [soloRun_succ hout, soloRun_succ hout]
          split
          · exact .inl rfl
          · exact ih (by omega) (round + 1) out.1

theorem soloRun_mono {n n' round : Nat} {c v : S} (hle : n ≤ n') (h : soloRun timeout machine n round c = .ok v) :
    soloRun timeout machine n' round c = .ok v := by
  rcases soloRun_fuel hle round c with heq | htimeout
  · rw [heq, h]
  · rw [h] at htimeout
    cases htimeout

/-- A cell that ends does so in one way. -/
theorem soloRun_unique {n n' round : Nat} {c v v' : S} (h : soloRun timeout machine n round c = .ok v)
    (h' : soloRun timeout machine n' round c = .ok v') : v = v' := by
  have hmax := soloRun_mono (Nat.le_max_left n n') h
  rw [soloRun_mono (Nat.le_max_right n n') h'] at hmax
  injection hmax with hmax
  exact hmax.symm

theorem soloRun_error_mono {n n' round : Nat} {c : S} {e : ε} (hle : n ≤ n') (he : e ≠ timeout)
    (h : soloRun timeout machine n round c = .error e) : soloRun timeout machine n' round c = .error e := by
  rcases soloRun_fuel hle round c with heq | htimeout
  · rw [heq, h]
  · rw [h] at htimeout
    injection htimeout with htimeout
    exact absurd htimeout he

end SoloRun

/-- What each cell has with enough fuel, all have with enough fuel. -/
theorem exists_common_fuel {P : Nat → Nat → Prop} {count : Nat}
    (h : ∀ k < count, ∃ n, ∀ fuel, n ≤ fuel → P k fuel) : ∃ n, ∀ fuel, n ≤ fuel → ∀ k < count, P k fuel := by
  induction count with
  | zero => exact ⟨0, fun _ _ k hk => absurd hk (Nat.not_lt_zero k)⟩
  | succ count ih =>
      obtain ⟨n, hn⟩ := ih fun k hk => h k (Nat.lt_succ_of_lt hk)
      obtain ⟨n', hn'⟩ := h count (Nat.lt_succ_self count)
      refine ⟨max n n', fun fuel hfuel k hk => ?_⟩
      rcases Nat.lt_succ_iff_lt_or_eq.mp hk with hlt | rfl
      · exact hn fuel (Nat.le_trans (Nat.le_max_left ..) hfuel) k hlt
      · exact hn' fuel (Nat.le_trans (Nat.le_max_right ..) hfuel)

/-! ## The loops -/

/-- `if(!done[i])` step the cell `at + i`. -/
def serve (step : Nat → Nat → Nat → S → Except ε (S × Bool)) (start round : Nat)
    (s : (Nat → S) × (Nat → Bool)) (i : Nat) : Except ε ((Nat → S) × (Nat → Bool)) :=
  if s.2 i then .ok s
  else do
    let out ← step start i round (s.1 (start + i))
    .ok (Function.update s.1 (start + i) out.1, Function.update s.2 i out.2)

/-- The innermost loop. -/
def sweep (step : Nat → Nat → Nat → S → Except ε (S × Bool)) (start round workers : Nat)
    (s : (Nat → S) × (Nat → Bool)) : Except ε ((Nat → S) × (Nat → Bool)) :=
  (List.range workers).foldlM (serve step start round) s

/-- The middle loop, for at most `fuel` rounds (`timeout` if they are not enough). -/
def rounds (timeout : ε) (step : Nat → Nat → Nat → S → Except ε (S × Bool)) (start workers : Nat) :
    Nat → Nat → (Nat → S) × (Nat → Bool) → Except ε (Nat → S)
  | 0,        _,     s => if (List.range workers).all s.2 then .ok s.1 else .error timeout
  | fuel + 1, round, s =>
      if (List.range workers).all s.2 then .ok s.1
      else do
        let s' ← sweep step start round workers s
        rounds timeout step start workers fuel (round + 1) s'

/-- The outermost loop, over an arbitrary body. -/
def batches {A : Type} (width count : Nat) (body : Nat → Nat → A → Except ε A) (a : A) : Except ε A :=
  (List.range ((count + width - 1) / width)).foldlM
    (fun a b => body (width * b) (min (count - width * b) width) a) a

/-- The three loops together. -/
def run (timeout : ε) (step : Nat → Nat → Nat → S → Except ε (S × Bool))
    (width count first fuel : Nat) (init : Nat → S) : Except ε (Nat → S) :=
  batches width count
    (fun start workers cells => rounds timeout step start workers fuel first (cells, fun _ => false)) init

/-! ## One sweep -/

section Sweep

variable {step : Nat → Nat → Nat → S → Except ε (S × Bool)} {m : Nat → Nat → S → S × Bool}
variable {start round : Nat}

/-- What a sweep over `n` workers leaves: every unfinished cell has made its own step. -/
def swept (m : Nat → Nat → S → S × Bool) (start round n : Nat) (s : (Nat → S) × (Nat → Bool)) :
    (Nat → S) × (Nat → Bool) :=
  (fun k => if start ≤ k ∧ k < start + n ∧ s.2 (k - start) = false then (m k round (s.1 k)).1 else s.1 k,
   fun i => if i < n ∧ s.2 i = false then (m (start + i) round (s.1 (start + i))).2 else s.2 i)

theorem swept_zero (s : (Nat → S) × (Nat → Bool)) : swept m start round 0 s = s := by
  apply Prod.ext
  · funext k
    simp only [swept]
    rw [if_neg (by omega)]
  · funext i
    simp only [swept]
    rw [if_neg (by omega)]

/-- One worker more. -/
theorem serve_swept {n : Nat} {s : (Nat → S) × (Nat → Bool)}
    (h : s.2 n = false → step start n round (s.1 (start + n)) = .ok (m (start + n) round (s.1 (start + n)))) :
    serve step start round (swept m start round n s) n = .ok (swept m start round (n + 1) s) := by
  have hdone : (swept m start round n s).2 n = s.2 n := by
    show (if n < n ∧ _ then _ else _) = _
    rw [if_neg (by omega)]
  have hcell : (swept m start round n s).1 (start + n) = s.1 (start + n) := by
    show (if start ≤ start + n ∧ start + n < start + n ∧ _ then _ else _) = _
    rw [if_neg (by omega)]
  unfold serve
  rw [hdone, hcell]
  by_cases hd : s.2 n = true
  · rw [if_pos hd]
    congr 1
    apply Prod.ext
    · funext k
      by_cases hk : k = start + n
      · subst hk; simp [swept, hd]
      · have hiff : k < start + n ↔ k < start + (n + 1) := by omega
        simp only [swept, hiff]
    · funext i
      by_cases hi : i = n
      · subst hi; simp [swept, hd]
      · have hiff : i < n ↔ i < n + 1 := by omega
        simp only [swept, hiff]
  · have hd' : s.2 n = false := by simpa using hd
    rw [if_neg hd, h hd']
    show Except.ok _ = Except.ok _
    congr 1
    apply Prod.ext
    · funext k
      by_cases hk : k = start + n
      · subst hk; simp [swept, hd']
      · have hiff : k < start + n ↔ k < start + (n + 1) := by omega
        show Function.update (swept m start round n s).1 (start + n) _ k = _
        rw [Function.update_of_ne hk]
        simp only [swept, hiff]
    · funext i
      by_cases hi : i = n
      · subst hi; simp [swept, hd']
      · have hiff : i < n ↔ i < n + 1 := by omega
        show Function.update (swept m start round n s).2 n _ i = _
        rw [Function.update_of_ne hi]
        simp only [swept, hiff]

/-- **A sweep in which no step fails** is every unfinished cell's own step. -/
theorem sweep_ok (workers : Nat) (s : (Nat → S) × (Nat → Bool))
    (h : ∀ i < workers, s.2 i = false →
      step start i round (s.1 (start + i)) = .ok (m (start + i) round (s.1 (start + i)))) :
    sweep step start round workers s = .ok (swept m start round workers s) := by
  unfold sweep
  induction workers with
  | zero => rw [swept_zero]; rfl
  | succ n ih =>
      rw [Loops.foldlM_range_succ, ih (fun i hi => h i (by omega))]
      exact serve_swept (h n (by omega))

/-- The step of a cell where it does not fail. -/
def forced (machine : Nat → Nat → S → Except ε (S × Bool)) (k round : Nat) (c : S) : S × Bool :=
  (machine k round c).toOption.getD (c, false)

theorem forced_of_ok {machine : Nat → Nat → S → Except ε (S × Bool)} {k : Nat} {c : S} {out : S × Bool}
    (h : machine k round c = .ok out) : forced machine k round c = out := by
  rw [forced, h]
  rfl

variable {machine : Nat → Nat → S → Except ε (S × Bool)}

/-- A sweep in which no unfinished cell fails, by the cells' own steps. -/
theorem sweep_forced {workers : Nat} {s : (Nat → S) × (Nat → Bool)}
    (hstep : ∀ i < workers, ∀ c, step start i round c = machine (start + i) round c)
    (h : ∀ i < workers, s.2 i = false → ∃ out, machine (start + i) round (s.1 (start + i)) = .ok out) :
    sweep step start round workers s = .ok (swept (forced machine) start round workers s) := by
  apply sweep_ok
  intro i hi hd
  obtain ⟨out, hout⟩ := h i hi hd
  rw [hstep i hi, hout, forced_of_ok hout]

/-- **A sweep in which some step fails** fails as one of them does. -/
theorem sweep_error {workers : Nat} {s : (Nat → S) × (Nat → Bool)}
    (hstep : ∀ i < workers, ∀ c, step start i round c = machine (start + i) round c)
    (hex : ∃ i < workers, s.2 i = false ∧ ∃ e, machine (start + i) round (s.1 (start + i)) = .error e) :
    ∃ i < workers, s.2 i = false ∧ ∃ e, machine (start + i) round (s.1 (start + i)) = .error e ∧
      sweep step start round workers s = .error e := by
  induction workers with
  | zero => obtain ⟨i, hi, _⟩ := hex; exact absurd hi (Nat.not_lt_zero i)
  | succ n ih =>
      have hstep' : ∀ i < n, ∀ c, step start i round c = machine (start + i) round c :=
        fun i hi => hstep i (by omega)
      unfold sweep
      rw [Loops.foldlM_range_succ]
      by_cases hbelow : ∃ i < n, s.2 i = false ∧ ∃ e, machine (start + i) round (s.1 (start + i)) = .error e
      · obtain ⟨i, hi, hd, e, herror, hsweep⟩ := ih hstep' hbelow
        unfold sweep at hsweep
        refine ⟨i, by omega, hd, e, herror, ?_⟩
        rw [hsweep]
        rfl
      · -- no earlier worker fails, so the failing one is `n`
        have hbefore : ∀ i < n, s.2 i = false → ∃ out, machine (start + i) round (s.1 (start + i)) = .ok out := by
          intro i hi hd
          cases hi' : machine (start + i) round (s.1 (start + i)) with
          | ok out  => exact ⟨out, rfl⟩
          | error e => exact absurd ⟨i, hi, hd, e, hi'⟩ hbelow
        obtain ⟨i, hi, hd, e, herror⟩ := hex
        obtain rfl : i = n := by
          by_contra hne
          exact hbelow ⟨i, by omega, hd, e, herror⟩
        have hdone : (swept (forced machine) start round i s).2 i = false := by
          show (if i < i ∧ _ then _ else _) = _
          rw [if_neg (by omega)]
          exact hd
        have hcell : (swept (forced machine) start round i s).1 (start + i) = s.1 (start + i) := by
          show (if start ≤ start + i ∧ start + i < start + i ∧ _ then _ else _) = _
          rw [if_neg (by omega)]
        have hserve : serve step start round (swept (forced machine) start round i s) i = .error e := by
          unfold serve
          rw [hdone, hcell, hstep i hi, herror]
          rfl
        have hsweep := sweep_forced hstep' hbefore
        unfold sweep at hsweep
        refine ⟨i, hi, hd, e, herror, ?_⟩
        rw [hsweep]
        exact hserve

/-- What a sweep that ends has done. -/
theorem eq_swept_of_sweep {workers : Nat} {s s' : (Nat → S) × (Nat → Bool)}
    (hstep : ∀ i < workers, ∀ c, step start i round c = machine (start + i) round c)
    (h : sweep step start round workers s = .ok s') :
    (∀ i < workers, s.2 i = false → ∃ out, machine (start + i) round (s.1 (start + i)) = .ok out) ∧
    s' = swept (forced machine) start round workers s := by
  have hok : ∀ i < workers, s.2 i = false → ∃ out, machine (start + i) round (s.1 (start + i)) = .ok out := by
    intro i hi hd
    cases hout : machine (start + i) round (s.1 (start + i)) with
    | ok out  => exact ⟨out, rfl⟩
    | error e =>
        obtain ⟨_, _, _, e', _, hsweep⟩ := sweep_error hstep ⟨i, hi, hd, e, hout⟩
        rw [hsweep] at h
        cases h
  refine ⟨hok, ?_⟩
  rw [sweep_forced hstep hok] at h
  injection h with h
  exact h.symm

end Sweep

/-! ## The rounds of a batch -/

section Rounds

variable {timeout : ε} {step : Nat → Nat → Nat → S → Except ε (S × Bool)}
variable {m : Nat → Nat → S → S × Bool} {start workers : Nat}

/-- A sweep steps an unfinished cell. -/
theorem swept_unfinished (m : Nat → Nat → S → S × Bool) (start round : Nat)
    {s : (Nat → S) × (Nat → Bool)} {i : Nat} (hi : i < workers) (hd : s.2 i = false) :
    (swept m start round workers s).1 (start + i) = (m (start + i) round (s.1 (start + i))).1 ∧
    (swept m start round workers s).2 i = (m (start + i) round (s.1 (start + i))).2 := by
  constructor
  · simp only [swept, Nat.add_sub_cancel_left]
    rw [if_pos ⟨by omega, by omega, hd⟩]
  · simp only [swept]
    rw [if_pos ⟨hi, hd⟩]

/-- It does not unfinish a cell. -/
theorem unfinished_of_swept {round : Nat} {s : (Nat → S) × (Nat → Bool)} {i : Nat}
    (h : (swept m start round workers s).2 i = false) : s.2 i = false := by
  by_contra hcon
  have hd : s.2 i = true := by simpa using hcon
  simp [swept, hd] at h

/-- The cells of a batch with the unfinished ones where they are to end. -/
def settled (res : Nat → S) (start workers : Nat) (s : (Nat → S) × (Nat → Bool)) : Nat → S :=
  fun k => if start ≤ k ∧ k < start + workers ∧ s.2 (k - start) = false then res k else s.1 k

/-- With no unfinished cell they are there already. -/
theorem settled_of_done (res : Nat → S) {s : (Nat → S) × (Nat → Bool)} (hall : ∀ i < workers, s.2 i = true) :
    settled res start workers s = s.1 := by
  funext k
  unfold settled
  split
  · next hk => exact absurd (hall (k - start) (by omega)) (by simp [hk.2.2])
  · rfl

/-- A sweep does not change where the cells are to end, if those it finishes end there. -/
theorem settled_swept {res : Nat → S} {round : Nat} {s : (Nat → S) × (Nat → Bool)}
    (hlast : ∀ i < workers, s.2 i = false → (m (start + i) round (s.1 (start + i))).2 = true →
      (m (start + i) round (s.1 (start + i))).1 = res (start + i)) :
    settled res start workers (swept m start round workers s) = settled res start workers s := by
  funext k
  unfold settled
  by_cases hk : start ≤ k ∧ k < start + workers ∧ s.2 (k - start) = false
  · obtain ⟨hk1, hk2, hk3⟩ := hk
    obtain ⟨i, rfl⟩ := Nat.exists_eq_add_of_le hk1
    rw [Nat.add_sub_cancel_left] at hk3
    have hi : i < workers := by omega
    obtain ⟨hc, hd⟩ := swept_unfinished m start round hi hk3
    simp only [Nat.add_sub_cancel_left, hd, hc, hk3]
    by_cases hfinal : (m (start + i) round (s.1 (start + i))).2 = true
    · simp [hfinal, hlast i hi hk3 hfinal, hk2]
    · have hfinal' : (m (start + i) round (s.1 (start + i))).2 = false := by simpa using hfinal
      simp [hfinal', hk2]
  · rw [if_neg hk, if_neg (fun h => hk ⟨h.1, h.2.1, unfinished_of_swept h.2.2⟩)]
    simp only [swept]
    rw [if_neg hk]

variable {machine : Nat → Nat → S → Except ε (S × Bool)}

/-- An unfinished cell that ends alone makes its step. -/
theorem step_ok_of_soloRun {k fuel round : Nat} {c v : S}
    (h : soloRun timeout (machine k) (fuel + 1) round c = .ok v) : ∃ out, machine k round c = .ok out := by
  cases hout : machine k round c with
  | ok out => exact ⟨out, rfl⟩
  | error e =>
      rw [soloRun_error hout] at h
      cases h

/-- It has one round less to go after a sweep. -/
theorem soloRun_swept {fuel round i : Nat} {s : (Nat → S) × (Nat → Bool)} {out : S × Bool} (hi : i < workers)
    (hd : (swept (forced machine) start round workers s).2 i = false)
    (hout : machine (start + i) round (s.1 (start + i)) = .ok out) :
    soloRun timeout (machine (start + i)) (fuel + 1) round (s.1 (start + i))
      = soloRun timeout (machine (start + i)) fuel (round + 1)
          ((swept (forced machine) start round workers s).1 (start + i)) := by
  obtain ⟨hc, hd'⟩ := swept_unfinished (forced machine) start round hi (unfinished_of_swept hd)
  rw [forced_of_ok hout] at hc hd'
  rw [soloRun_succ hout, hc, if_neg (by rw [← hd', hd]; simp)]

/-- Where a finished one ends. -/
theorem soloRun_last {fuel round k : Nat} {c v : S} {out : S × Bool} (hout : machine k round c = .ok out)
    (hlast : (forced machine k round c).2 = true) (h : soloRun timeout (machine k) (fuel + 1) round c = .ok v) :
    (forced machine k round c).1 = v := by
  rw [forced_of_ok hout] at hlast ⊢
  rw [soloRun_succ hout, if_pos hlast] at h
  injection h

/-- **A batch of cells that end** leaves every unfinished cell where it ends alone. -/
theorem rounds_ok (hstep : ∀ i < workers, ∀ round c, step start i round c = machine (start + i) round c)
    (res : Nat → S) (fuel round : Nat) (s : (Nat → S) × (Nat → Bool))
    (hsolo : ∀ i < workers, s.2 i = false →
      soloRun timeout (machine (start + i)) fuel round (s.1 (start + i)) = .ok (res (start + i))) :
    rounds timeout step start workers fuel round s = .ok (settled res start workers s) := by
  induction fuel generalizing round s with
  | zero =>
      have hall : ∀ i < workers, s.2 i = true := by
        intro i hi
        by_contra hcon
        exact nomatch hsolo i hi (by simpa using hcon)
      rw [rounds, if_pos (by simpa [List.all_eq_true] using hall), settled_of_done res hall]
  | succ fuel ih =>
      rw [rounds]
      by_cases hall : (List.range workers).all s.2 = true
      · rw [if_pos hall, settled_of_done res (by simpa [List.all_eq_true] using hall)]
      · have hok : ∀ i < workers, s.2 i = false → ∃ out, machine (start + i) round (s.1 (start + i)) = .ok out :=
          fun i hi hd => step_ok_of_soloRun (hsolo i hi hd)
        rw [if_neg hall, sweep_forced (fun i hi => hstep i hi round) hok]
        show rounds timeout step start workers fuel (round + 1) (swept (forced machine) start round workers s) = _
        rw [ih (round + 1), settled_swept]
        · intro i hi hd hlast
          obtain ⟨out, hout⟩ := hok i hi hd
          exact soloRun_last hout hlast (hsolo i hi hd)
        · intro i hi hd
          obtain ⟨out, hout⟩ := hok i hi (unfinished_of_swept hd)
          rw [← soloRun_swept hi hd hout]
          exact hsolo i hi (unfinished_of_swept hd)

/-- **A batch with a failing cell** fails, when those that fail all do so in the same way. -/
theorem rounds_error {e : ε} (hstep : ∀ i < workers, ∀ round c, step start i round c = machine (start + i) round c)
    (fuel round : Nat) (s : (Nat → S) × (Nat → Bool))
    (hsolo : ∀ i < workers, s.2 i = false →
      (∃ v, soloRun timeout (machine (start + i)) fuel round (s.1 (start + i)) = .ok v) ∨
      soloRun timeout (machine (start + i)) fuel round (s.1 (start + i)) = .error e)
    (hex : ∃ i < workers, s.2 i = false ∧
      soloRun timeout (machine (start + i)) fuel round (s.1 (start + i)) = .error e) :
    rounds timeout step start workers fuel round s = .error e := by
  induction fuel generalizing round s with
  | zero =>
      obtain ⟨i, hi, hd, herror⟩ := hex
      rw [rounds, if_neg (fun hall => by simp [List.all_eq_true.mp hall i (List.mem_range.mpr hi)] at hd)]
      -- whoever has not finished by now has run out of rounds
      injection herror with herror
      rw [herror]
  | succ fuel ih =>
      obtain ⟨j, hj, hjd, hjerror⟩ := hex
      rw [rounds, if_neg (fun hall => by simp [List.all_eq_true.mp hall j (List.mem_range.mpr hj)] at hjd)]
      by_cases hbad : ∃ i < workers, s.2 i = false ∧ ∃ e, machine (start + i) round (s.1 (start + i)) = .error e
      · -- some cell fails in this very round
        obtain ⟨i, hi, hd, e', herror, hsweep⟩ := sweep_error (fun i hi => hstep i hi round) hbad
        have hsame := hsolo i hi hd
        rw [soloRun_error herror] at hsame
        rcases hsame with ⟨v, hv⟩ | hsame
        · cases hv
        · injection hsame with hsame
          rw [hsweep, hsame]
          rfl
      · have hok : ∀ i < workers, s.2 i = false → ∃ out, machine (start + i) round (s.1 (start + i)) = .ok out := by
          intro i hi hd
          cases hi' : machine (start + i) round (s.1 (start + i)) with
          | ok out   => exact ⟨out, rfl⟩
          | error e' => exact absurd ⟨i, hi, hd, e', hi'⟩ hbad
        rw [sweep_forced (fun i hi => hstep i hi round) hok]
        show rounds timeout step start workers fuel (round + 1) (swept (forced machine) start round workers s) = _
        apply ih (round + 1)
        · intro i hi hd
          obtain ⟨out, hout⟩ := hok i hi (unfinished_of_swept hd)
          rw [← soloRun_swept hi hd hout]
          exact hsolo i hi (unfinished_of_swept hd)
        · -- the failing cell is not finished by the sweep
          obtain ⟨out, hout⟩ := hok j hj hjd
          have hlater : (swept (forced machine) start round workers s).2 j = false := by
            rw [(swept_unfinished (forced machine) start round hj hjd).2, forced_of_ok hout]
            by_contra hlast
            rw [soloRun_succ hout, if_pos (by simpa using hlast)] at hjerror
            cases hjerror
          refine ⟨j, hj, hlater, ?_⟩
          rw [← soloRun_swept hj hlater hout]
          exact hjerror

/-- **What a batch that ends has done**: every unfinished cell is where it ends alone, all else as it was. -/
theorem soloRun_of_rounds (hstep : ∀ i < workers, ∀ round c, step start i round c = machine (start + i) round c)
    (fuel round : Nat) (s : (Nat → S) × (Nat → Bool)) {cells : Nat → S}
    (h : rounds timeout step start workers fuel round s = .ok cells) :
    (∀ i < workers, s.2 i = false →
      soloRun timeout (machine (start + i)) fuel round (s.1 (start + i)) = .ok (cells (start + i))) ∧
    cells = settled cells start workers s := by
  have hfinished : ∀ (fuel round : Nat) (s : (Nat → S) × (Nat → Bool)), (List.range workers).all s.2 = true →
      s.1 = cells →
      (∀ i < workers, s.2 i = false →
        soloRun timeout (machine (start + i)) fuel round (s.1 (start + i)) = .ok (cells (start + i))) ∧
      cells = settled cells start workers s := by
    intro fuel round s hall hcells
    have hall' : ∀ i < workers, s.2 i = true := by simpa [List.all_eq_true] using hall
    refine ⟨fun i hi hd => absurd (hall' i hi) (by simp [hd]), ?_⟩
    rw [settled_of_done cells hall', hcells]
  induction fuel generalizing round s with
  | zero =>
      rw [rounds] at h
      split at h
      · next hall => exact hfinished 0 round s hall (Except.ok.inj h)
      · cases h
  | succ fuel ih =>
      rw [rounds] at h
      split at h
      · next hall => exact hfinished (fuel + 1) round s hall (Except.ok.inj h)
      · obtain ⟨s', hsweep, hrest⟩ := Loops.bind_eq_ok h
        obtain ⟨hok, rfl⟩ := eq_swept_of_sweep (fun i hi => hstep i hi round) hsweep
        obtain ⟨hcells, hframe⟩ := ih (round + 1) _ hrest
        -- a cell this sweep finishes stays where its last step left it
        have hlast : ∀ i < workers, s.2 i = false →
            (forced machine (start + i) round (s.1 (start + i))).2 = true →
            (forced machine (start + i) round (s.1 (start + i))).1 = cells (start + i) := by
          intro i hi hd hfinal
          obtain ⟨hc, hd'⟩ := swept_unfinished (forced machine) start round hi hd
          rw [hframe, settled, Nat.add_sub_cancel_left, if_neg (by rw [hd', hfinal]; simp), hc]
        refine ⟨?_, ?_⟩
        · intro i hi hd
          obtain ⟨out, hout⟩ := hok i hi hd
          by_cases hfinal : (forced machine (start + i) round (s.1 (start + i))).2 = true
          · have hv := hlast i hi hd hfinal
            rw [forced_of_ok hout] at hfinal hv
            rw [soloRun_succ hout, if_pos hfinal, hv]
          · have hlater : (swept (forced machine) start round workers s).2 i = false := by
              rw [(swept_unfinished (forced machine) start round hi hd).2]
              simpa using hfinal
            rw [soloRun_swept hi hlater hout]
            exact hcells i hi hlater
        · rw [← settled_swept hlast]
          exact hframe

end Rounds

/-! ## The batches -/

/-- A batch that is served starts below `count`. -/
theorem batch_start_lt {width count b : Nat} (hw : 0 < width) (hb : b < (count + width - 1) / width) :
    width * b < count := by
  have h1 : (b + 1) * width ≤ count + width - 1 :=
    Nat.le_trans (Nat.mul_le_mul_right width hb) (Nat.div_mul_le_self _ _)
  rw [Nat.add_mul, Nat.one_mul, Nat.mul_comm] at h1
  omega

/-- Together they cover all cells. -/
theorem batches_cover {width : Nat} (count : Nat) (hw : 0 < width) :
    count ≤ width * ((count + width - 1) / width) := by
  have h1 := Nat.div_add_mod (count + width - 1) width
  have h2 := Nat.mod_lt (count + width - 1) hw
  omega

section Batches

variable {A : Type} {width count : Nat} {e : ε} {good : Nat → Prop} {state : Nat → A}
variable {body : Nat → Nat → A → Except ε A}

/-- A batch takes the loop from the state behind the cells in front of it to the state behind its own, or fails if one
    of them is bad. -/
structure BatchStates (count : Nat) (e : ε) (good : Nat → Prop) (state : Nat → A)
    (body : Nat → Nat → A → Except ε A) : Prop where
  ok : ∀ start workers, start + workers ≤ count → start < count → workers ≠ 0 → (∀ i < workers, good (start + i)) →
    body start workers (state start) = .ok (state (start + workers))
  bad : ∀ start workers, start + workers ≤ count → (∃ i < workers, ¬ good (start + i)) →
    body start workers (state start) = .error e

/-- After `b` batches. -/
theorem batches_sofar (hw : 0 < width) (hbody : BatchStates count e good state body) (b : Nat)
    (hb : b ≤ (count + width - 1) / width) :
    ((∀ k < min (width * b) count, good k) →
      (List.range b).foldlM (fun a b => body (width * b) (min (count - width * b) width) a) (state 0)
        = .ok (state (min (width * b) count))) ∧
    ((∃ k < min (width * b) count, ¬ good k) →
      (List.range b).foldlM (fun a b => body (width * b) (min (count - width * b) width) a) (state 0) = .error e) := by
  induction b with
  | zero =>
      rw [Nat.mul_zero, Nat.zero_min]
      exact ⟨fun _ => rfl, fun ⟨k, hk, _⟩ => absurd hk (Nat.not_lt_zero k)⟩
  | succ b ih =>
      obtain ⟨ihok, ihbad⟩ := ih (by omega)
      have hlt := batch_start_lt hw hb
      have hbefore : min (width * b) count = width * b := Nat.min_eq_left (Nat.le_of_lt hlt)
      have hafter : min (width * (b + 1)) count = width * b + min (count - width * b) width := by
        rw [Nat.mul_add, Nat.mul_one]
        omega
      rw [hbefore] at ihok ihbad
      rw [hafter, Loops.foldlM_range_succ]
      constructor
      · intro hall
        rw [ihok fun k hk => hall k (by omega)]
        exact hbody.ok _ _ (by omega) hlt (by omega) fun i hi => hall (width * b + i) (by omega)
      · rintro ⟨k, hk, hkbad⟩
        by_cases hbelow : ∃ j < width * b, ¬ good j
        · rw [ihbad hbelow]
          rfl
        · -- the bad cell is in this batch
          have hgood : ∀ j < width * b, good j := fun j hj => by
            by_contra hcon
            exact hbelow ⟨j, hj, hcon⟩
          have hge : width * b ≤ k := by
            by_contra hcon
            exact hkbad (hgood k (by omega))
          obtain ⟨i, rfl⟩ := Nat.exists_eq_add_of_le hge
          rw [ihok hgood]
          exact hbody.bad _ _ (by omega) ⟨i, by omega, hkbad⟩

/-- **Invariant rule for batches**: the loop comes to the state behind all cells, or fails if one of them is bad. -/
theorem batches_states (hw : 0 < width) (hbody : BatchStates count e good state body) :
    ((∀ k < count, good k) → batches width count body (state 0) = .ok (state count)) ∧
    ((∃ k < count, ¬ good k) → batches width count body (state 0) = .error e) := by
  have hcover : min (width * ((count + width - 1) / width)) count = count :=
    Nat.min_eq_right (batches_cover count hw)
  have hall := batches_sofar hw hbody _ (Nat.le_refl _)
  rwa [hcover] at hall

end Batches

/-- The body of the loop over batches: it gives every cell of its batch its own result, or fails as soon as one
    of them is bad. -/
structure BatchBody (count : Nat) (e : ε) (good : Nat → Prop) (res init : Nat → S)
    (body : Nat → Nat → (Nat → S) → Except ε (Nat → S)) : Prop where
  ok : ∀ start workers cells, start + workers ≤ count → start < count → workers ≠ 0 →
    (∀ k, start ≤ k → k < start + workers → cells k = init k) →
    (∀ k, start ≤ k → k < start + workers → good k) →
    body start workers cells = .ok (fun k => if start ≤ k ∧ k < start + workers then res k else cells k)
  bad : ∀ start workers cells, start + workers ≤ count →
    (∀ k, start ≤ k → k < start + workers → cells k = init k) →
    (∃ k, start ≤ k ∧ k < start + workers ∧ ¬ good k) →
    body start workers cells = .error e

/-- The cells with those below `n` done. -/
def doneBelow (count : Nat) (res init : Nat → S) (n : Nat) : Nat → S :=
  fun k => if k < count ∧ k < n then res k else init k

/-- The state behind `n` cells has those done. -/
theorem BatchBody.states {count : Nat} {e : ε} {good : Nat → Prop} {res init : Nat → S}
    {body : Nat → Nat → (Nat → S) → Except ε (Nat → S)} (hbody : BatchBody count e good res init body) :
    BatchStates count e good (doneBelow count res init) body := by
  have hfresh : ∀ start k, start ≤ k → doneBelow count res init start k = init k := by
    intro start k hk
    unfold doneBelow
    rw [if_neg (by omega)]
  constructor
  · intro start workers hle hlt hne hgood
    have hcells : ∀ k, start ≤ k → k < start + workers → good k := by
      intro k hk hk'
      obtain ⟨i, rfl⟩ := Nat.exists_eq_add_of_le hk
      exact hgood i (by omega)
    rw [hbody.ok _ _ _ hle hlt hne (fun k hk _ => hfresh start k hk) hcells]
    congr 1
    funext k
    unfold doneBelow
    by_cases h1 : k < count ∧ k < start
    · rw [if_neg (by omega), if_pos h1, if_pos (by omega)]
    · by_cases h2 : start ≤ k ∧ k < start + workers
      · rw [if_pos h2, if_pos (by omega)]
      · rw [if_neg h2, if_neg h1, if_neg (by omega)]
  · rintro start workers hle ⟨i, hi, hbad⟩
    exact hbody.bad _ _ _ hle (fun k hk _ => hfresh start k hk) ⟨start + i, by omega, by omega, hbad⟩

/-- **Batches of cells**: the whole loop gives every cell its own result, or fails if one of them is bad. -/
theorem batches_eq {width count : Nat} {e : ε} {good : Nat → Prop} {res init : Nat → S}
    {body : Nat → Nat → (Nat → S) → Except ε (Nat → S)} (hw : 0 < width)
    (hbody : BatchBody count e good res init body) :
    ((∀ k < count, good k) →
      batches width count body init = .ok (fun k => if k < count then res k else init k)) ∧
    ((∃ k < count, ¬ good k) → batches width count body init = .error e) := by
  have hstart : doneBelow count res init 0 = init := by
    funext k
    unfold doneBelow
    rw [if_neg (by omega)]
  have hend : doneBelow count res init count = fun k => if k < count then res k else init k := by
    funext k
    unfold doneBelow
    simp only [and_self]
  have hall := batches_states hw hbody.states
  rwa [hstart, hend] at hall

/-- Bodies that agree on the batches make loops that agree. -/
theorem batches_congr {A : Type} {width count : Nat} {body body' : Nat → Nat → A → Except ε A}
    (h : ∀ b, body (width * b) (min (count - width * b) width) = body' (width * b) (min (count - width * b) width))
    (a : A) : batches width count body a = batches width count body' a :=
  Loops.foldlM_congr (fun b _ a => congrFun (h b) a) a

/-! ## Loops of one round -/

section Foldl

variable {A : Type} {width count : Nat} {e : ε} {good : Nat → Prop} {body : Nat → Nat → A → Except ε A}
  {g : A → Nat → A}

/-- The body of a loop over batches that takes its cells one by one, or fails as soon as one of them is bad. -/
structure FoldBody (count : Nat) (e : ε) (good : Nat → Prop) (g : A → Nat → A)
    (body : Nat → Nat → A → Except ε A) : Prop where
  ok : ∀ start workers a, start + workers ≤ count → (∀ i < workers, good (start + i)) →
    body start workers a = .ok ((List.range workers).foldl (fun a i => g a (start + i)) a)
  bad : ∀ start workers a, start + workers ≤ count → (∃ i < workers, ¬ good (start + i)) →
    body start workers a = .error e

/-- The state behind `n` cells is the loop over them. -/
theorem FoldBody.states (hbody : FoldBody count e good g body) (a : A) :
    BatchStates count e good (fun n => (List.range n).foldl g a) body := by
  constructor
  · intro start workers hle _ _ hgood
    rw [hbody.ok _ _ _ hle hgood, List.range_add, List.foldl_append, List.foldl_map]
  · intro start workers hle hbad
    exact hbody.bad _ _ _ hle hbad

/-- **A batched loop is the loop over all cells**, or fails if one of them is bad. -/
theorem batches_foldl (hw : 0 < width) (hbody : FoldBody count e good g body) (a : A) :
    ((∀ k < count, good k) → batches width count body a = .ok ((List.range count).foldl g a)) ∧
    ((∃ k < count, ¬ good k) → batches width count body a = .error e) := by
  exact batches_states hw (hbody.states a)

end Foldl

/-- `for(i = 0; i < workers; ++i) cells[start + i] = g(start + i, cells[start + i])`. -/
def fill (g : Nat → S → S) (start workers : Nat) (cells : Nat → S) : Nat → S :=
  (List.range workers).foldl
    (fun cells i => Function.update cells (start + i) (g (start + i) (cells (start + i)))) cells

theorem fill_eq (g : Nat → S → S) (start workers : Nat) (cells : Nat → S) :
    fill g start workers cells
      = fun k => if start ≤ k ∧ k < start + workers then g k (cells k) else cells k := by
  unfold fill
  induction workers with
  | zero =>
      funext k
      rw [if_neg (by omega)]
      rfl
  | succ n ih =>
      rw [List.range_succ, List.foldl_append, ih, List.foldl_cons, List.foldl_nil]
      funext k
      by_cases hk : k = start + n
      · subst hk
        simp
      · rw [Function.update_of_ne hk]
        have hiff : k < start + n ↔ k < start + (n + 1) := by omega
        simp only [hiff]

/-- All cells from the first. -/
theorem foldl_update_eq (g : Nat → S → S) (count : Nat) (init : Nat → S) :
    (List.range count).foldl (fun cells k => Function.update cells k (g k (cells k))) init
      = fun k => if k < count then g k (init k) else init k := by
  have hfill := fill_eq g 0 count init
  simpa only [fill, Nat.zero_add, Nat.zero_le, true_and] using hfill

/-! ## The whole loop -/

section Run

variable {timeout : ε} {step : Nat → Nat → Nat → S → Except ε (S × Bool)}
variable {machine : Nat → Nat → S → Except ε (S × Bool)} {init : Nat → S} {width count first fuel : Nat}

/-- Where a cell ends alone, if it does. -/
def endOf (timeout : ε) (machine : Nat → S → Except ε (S × Bool)) (fuel first : Nat) (c : S) : S :=
  (soloRun timeout machine fuel first c).toOption.getD c

theorem endOf_eq {k : Nat} {c v : S} (h : soloRun timeout (machine k) fuel first c = .ok v) :
    endOf timeout (machine k) fuel first c = v := by
  rw [endOf, h]
  rfl

/-- **The whole loop, cell by cell.** If every good cell ends alone and every bad one fails alone, all in the same
    way, then: if all cells are good each ends where it ends alone; otherwise the loop fails in that way. -/
theorem run_cells {e : ε} (good : Nat → Prop) (hw : 0 < width)
    (hstep : ∀ start i, start + i < count → ∀ round c, step start i round c = machine (start + i) round c)
    (hgood : ∀ k < count, good k → ∃ v, soloRun timeout (machine k) fuel first (init k) = .ok v)
    (hbad : ∀ k < count, ¬ good k → soloRun timeout (machine k) fuel first (init k) = .error e) :
    ((∀ k < count, good k) →
      run timeout step width count first fuel init
        = .ok (fun k => if k < count then endOf timeout (machine k) fuel first (init k) else init k)) ∧
    ((∃ k < count, ¬ good k) → run timeout step width count first fuel init = .error e) := by
  refine batches_eq hw ⟨?_, ?_⟩
  · intro start workers cells hle _ _ hinit hg
    rw [rounds_ok (fun i hi => hstep start i (by omega)) (fun k => endOf timeout (machine k) fuel first (init k))]
    · congr 1
      funext k
      simp [settled]
    · intro i hi _
      show soloRun timeout _ fuel first (cells (start + i)) = _
      rw [hinit (start + i) (by omega) (by omega)]
      obtain ⟨v, hv⟩ := hgood (start + i) (by omega) (hg _ (by omega) (by omega))
      rw [endOf_eq hv, hv]
  · intro start workers cells hle hinit hex
    obtain ⟨k, hk1, hk2, hk⟩ := hex
    obtain ⟨i, rfl⟩ := Nat.exists_eq_add_of_le hk1
    apply rounds_error (fun i hi => hstep start i (by omega))
    · intro j hj _
      show (∃ v, soloRun timeout _ fuel first (cells (start + j)) = .ok v) ∨
        soloRun timeout _ fuel first (cells (start + j)) = .error e
      rw [hinit (start + j) (by omega) (by omega)]
      by_cases hj' : good (start + j)
      · exact .inl (hgood (start + j) (by omega) hj')
      · exact .inr (hbad (start + j) (by omega) hj')
    · refine ⟨i, by omega, rfl, ?_⟩
      show soloRun timeout _ fuel first (cells (start + i)) = _
      rw [hinit (start + i) (by omega) (by omega)]
      exact hbad _ (by omega) hk

/-- **What a loop that ends has done**: every cell is where it ends alone. -/
theorem soloRun_of_run (hw : 0 < width)
    (hstep : ∀ start i, start + i < count → ∀ round c, step start i round c = machine (start + i) round c)
    {cells : Nat → S} (h : run timeout step width count first fuel init = .ok cells) {k : Nat} (hk : k < count) :
    soloRun timeout (machine k) fuel first (init k) = .ok (cells k) := by
  have hbatches : ∀ b ≤ (count + width - 1) / width, ∀ cells,
      (List.range b).foldlM (fun a b => rounds timeout step (width * b) (min (count - width * b) width) fuel first
        (a, fun _ => false)) init = .ok cells →
      (∀ k < count, k < width * b → soloRun timeout (machine k) fuel first (init k) = .ok (cells k)) ∧
      ∀ k, width * b ≤ k → cells k = init k := by
    intro b hb
    induction b with
    | zero =>
        intro cells hcells
        injection hcells with hcells
        subst hcells
        exact ⟨fun k _ hk => absurd hk (by omega), fun k _ => rfl⟩
    | succ b ih =>
        intro cells hcells
        have hsucc : width * (b + 1) = width * b + width := by rw [Nat.mul_add, Nat.mul_one]
        have hlt := batch_start_lt hw hb
        rw [Loops.foldlM_range_succ] at hcells
        obtain ⟨before, hbefore, hround⟩ := Loops.bind_eq_ok hcells
        obtain ⟨hdone, hleft⟩ := ih (by omega) before hbefore
        obtain ⟨hserved, hframe⟩ := soloRun_of_rounds (fun i hi => hstep (width * b) i (by omega)) fuel first _ hround
        -- outside of its batch a round changes no cell
        have hout : ∀ k, ¬ (width * b ≤ k ∧ k < width * b + min (count - width * b) width) → cells k = before k := by
          intro k hk
          rw [hframe, settled, if_neg (fun h => hk ⟨h.1, h.2.1⟩)]
        refine ⟨fun k hk hkb => ?_, fun k hk => ?_⟩
        · by_cases hold : k < width * b
          · rw [hout k (by omega)]
            exact hdone k hk hold
          · obtain ⟨i, rfl⟩ := Nat.exists_eq_add_of_le (Nat.le_of_not_lt hold)
            rw [← hleft (width * b + i) (by omega)]
            exact hserved i (by omega) rfl
        · rw [hout k (by omega)]
          exact hleft k (by omega)
  have hcover := batches_cover count hw
  exact (hbatches _ (Nat.le_refl _) cells h).1 k hk (by omega)

end Run

end Lockstep
