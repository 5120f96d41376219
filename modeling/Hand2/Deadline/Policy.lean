import Mathlib.Data.Nat.Count
import Mathlib.Tactic.Linarith

/-!
# `Deadline.Policy` — counting late days when a weekend is one day

The policy in its own terms, on day labels alone: a label is a natural number read modulo 7, `0` for
Sunday and `6` for Saturday. `chargedDays f k` is what `k` days starting at label `f` cost when every two
weekend days among them count as one.

`calculate_cutoff` does not invert that function directly: it grants `n` days, then half the weekend days
among them, then half the weekend days among *those*, and so on, rounding down in every round. The days it
grants in all are `extension f n`; what the roundings drop is `halfWeekends f n`. The two are tied by
`weekendCount_extension`, and `chargedDays_extension` / `chargedDays_extension_succ` read the charge of the
last admitted day and of the day after it off that identity.
-/

namespace Hand2
namespace Policy

/-- Saturday and Sunday. -/
def Weekend (d : Nat) : Prop := d % 7 = 0 ∨ d % 7 = 6

instance : DecidablePred Weekend := fun d => inferInstanceAs (Decidable (d % 7 = 0 ∨ d % 7 = 6))

/-- The weekend days among the `k` days labelled `f, f + 1, …`. -/
def weekendCount (f k : Nat) : Nat := Nat.count (fun i => Weekend (f + i)) k

@[simp] theorem weekendCount_zero (f : Nat) : weekendCount f 0 = 0 := by simp [weekendCount]

theorem weekendCount_succ (f k : Nat) :
    weekendCount f (k + 1) = weekendCount f k + if Weekend (f + k) then 1 else 0 := by
  simp only [weekendCount, Nat.count_succ]

theorem weekendCount_add (f k j : Nat) :
    weekendCount f (k + j) = weekendCount f k + weekendCount (f + k) j := by
  simp only [weekendCount, Nat.count_add, Nat.add_assoc]

/-- The weekend days among `k + 1` days, the first day split off. -/
theorem weekendCount_succ_left (f k : Nat) :
    weekendCount f (k + 1) = (if Weekend f then 1 else 0) + weekendCount (f + 1) k := by
  have hsplit := weekendCount_add f 1 k
  have hfirst := weekendCount_succ f 0
  rw [Nat.add_comm k 1, hsplit, hfirst]
  simp

theorem weekendCount_le (f k : Nat) : weekendCount f k ≤ k := Nat.count_le _

/-- The closed form the program computes with: `(d + 6) / 7` Sundays and `d / 7` Saturdays come before
    label `d`. -/
theorem weekendCount_closed (f k : Nat) :
    weekendCount f k + ((f + 6) / 7 + f / 7) = (f + k + 6) / 7 + (f + k) / 7 := by
  induction k with
  | zero => simp
  | succ k ih =>
      rw [weekendCount_succ]
      by_cases hw : Weekend (f + k)
      · rw [if_pos hw]; unfold Weekend at hw; omega
      · rw [if_neg hw]; unfold Weekend at hw; omega

/-- Only the label modulo 7 matters. -/
theorem weekendCount_mod (f k : Nat) : weekendCount (f % 7) k = weekendCount f k := by
  have h1 := weekendCount_closed f k
  have h2 := weekendCount_closed (f % 7) k
  omega

/-! ## The charge -/

/-- What `k` days from label `f` cost: one each, less one for every two weekend days. -/
def chargedDays (f k : Nat) : Nat := k - weekendCount f k / 2

/-- Charges never decrease. -/
theorem chargedDays_mono {f k j : Nat} (h : k ≤ j) : chargedDays f k ≤ chargedDays f j := by
  obtain ⟨i, rfl⟩ := Nat.exists_eq_add_of_le h
  have h1 := weekendCount_add f k i
  have h2 := weekendCount_le (f + k) i
  have h3 := weekendCount_le f k
  unfold chargedDays
  omega

/-- One more day is charged at most one day more. -/
theorem chargedDays_succ_le (f k : Nat) : chargedDays f (k + 1) ≤ chargedDays f k + 1 := by
  have hsucc := weekendCount_succ f k
  have hle := weekendCount_le f k
  unfold chargedDays
  omega

/-! ## The extension in rounds -/

/-- A round shrinks: half the weekend days of a nonempty round are fewer than its days. -/
theorem weekendCount_half_lt {f n : Nat} (h : n ≠ 0) : weekendCount f n / 2 < n := by
  have := weekendCount_le f n
  omega

/-- The days granted for an allowance of `n` days from label `f`. -/
def extension (f n : Nat) : Nat :=
  if _h : n = 0 then 0 else n + extension (f + n) (weekendCount f n / 2)
termination_by n
decreasing_by exact weekendCount_half_lt (by assumption)

/-- The half weekends the rounds drop: one for every round with an odd number of weekend days, and one if
    the day after the last round (where a further round would start) is itself a weekend day. -/
def halfWeekends (f n : Nat) : Nat :=
  if _h : n = 0 then (if Weekend f then 1 else 0)
  else weekendCount f n % 2 + halfWeekends (f + n) (weekendCount f n / 2)
termination_by n
decreasing_by exact weekendCount_half_lt (by assumption)

@[simp] theorem extension_zero (f : Nat) : extension f 0 = 0 := by rw [extension]; simp

theorem extension_pos {f n : Nat} (h : n ≠ 0) :
    extension f n = n + extension (f + n) (weekendCount f n / 2) := by rw [extension, dif_neg h]

theorem halfWeekends_zero (f : Nat) : halfWeekends f 0 = if Weekend f then 1 else 0 := by
  rw [halfWeekends]; simp

theorem halfWeekends_pos {f n : Nat} (h : n ≠ 0) :
    halfWeekends f n = weekendCount f n % 2 + halfWeekends (f + n) (weekendCount f n / 2) := by
  rw [halfWeekends, dif_neg h]

theorem le_extension (f n : Nat) : n ≤ extension f n := by
  by_cases h : n = 0
  · simp [h]
  · rw [extension_pos h]; omega

/-- Only the label modulo 7 matters. -/
theorem extension_mod (f n : Nat) : extension (f % 7) n = extension f n := by
  induction n using Nat.strong_induction_on generalizing f with
  | _ n ih =>
      by_cases h : n = 0
      · subst h; simp
      · have hlt : weekendCount f n / 2 < n := weekendCount_half_lt h
        have hlabel : (f % 7 + n) % 7 = (f + n) % 7 := by omega
        rw [extension_pos h, extension_pos h, weekendCount_mod,
          ← ih _ hlt (f % 7 + n), hlabel, ih _ hlt (f + n)]

/-- **What the rounds grant and what they drop.** Among the granted days and the day after them, the
    weekend days are twice the days granted on top of the allowance, plus the dropped halves. -/
theorem weekendCount_extension (f n : Nat) :
    weekendCount f (extension f n + 1) = 2 * (extension f n - n) + halfWeekends f n := by
  induction n using Nat.strong_induction_on generalizing f with
  | _ n ih =>
      by_cases h : n = 0
      · subst h
        simp [halfWeekends_zero, weekendCount_succ]
      · have hrec := ih (weekendCount f n / 2) (weekendCount_half_lt h) (f + n)
        have hsplit := weekendCount_add f n (extension (f + n) (weekendCount f n / 2) + 1)
        have hle := le_extension (f + n) (weekendCount f n / 2)
        rw [extension_pos h, halfWeekends_pos h, Nat.add_assoc, hsplit, hrec]
        omega

/-- The rounds grant at most twice the allowance. -/
theorem extension_le (f n : Nat) : extension f n ≤ 2 * n := by
  induction n using Nat.strong_induction_on generalizing f with
  | _ n ih =>
      by_cases h : n = 0
      · subst h; simp
      · have hrec := ih (weekendCount f n / 2) (weekendCount_half_lt h) (f + n)
        have hle := weekendCount_le f n
        rw [extension_pos h]
        omega

/-- **The day after the last granted one** is over the allowance exactly when at most one half weekend
    was dropped. -/
theorem chargedDays_extension_succ (f n : Nat) :
    n < chargedDays f (extension f n + 1) ↔ halfWeekends f n ≤ 1 := by
  have hcount := weekendCount_extension f n
  have hle := le_extension f n
  unfold chargedDays
  omega

/-- A weekend day right after the granted days counts among the dropped halves. -/
theorem weekend_le_halfWeekends (f n : Nat) :
    (if Weekend (f + extension f n) then 1 else 0) ≤ halfWeekends f n := by
  induction n using Nat.strong_induction_on generalizing f with
  | _ n ih =>
      by_cases h : n = 0
      · subst h; simp [halfWeekends_zero]
      · have hrec := ih (weekendCount f n / 2) (weekendCount_half_lt h) (f + n)
        rw [extension_pos h, halfWeekends_pos h, ← Nat.add_assoc]
        omega

/-- **The last granted day** is within the allowance. -/
theorem chargedDays_extension (f n : Nat) : chargedDays f (extension f n) ≤ n := by
  have hcount := weekendCount_extension f n
  have hsucc := weekendCount_succ f (extension f n)
  have hhalf := weekend_le_halfWeekends f n
  have hle := le_extension f n
  unfold chargedDays
  omega

/-! ## Longer allowances -/

/-- The day behind the granted ones. -/
def dayBehind (f n : Nat) : Nat := f + extension f n

@[simp] theorem dayBehind_zero (f : Nat) : dayBehind f 0 = f := by simp [dayBehind]

theorem dayBehind_pos {f n : Nat} (h : n ≠ 0) : dayBehind f n = dayBehind (f + n) (weekendCount f n / 2) := by
  unfold dayBehind
  rw [extension_pos h]
  omega

/-- A weekday uses up one day of the allowance. -/
theorem dayBehind_weekday {f n : Nat} (h : ¬ Weekend f) : dayBehind f (n + 1) = dayBehind (f + 1) n := by
  by_cases h0 : n = 0
  · subst h0
    rw [dayBehind_pos (Nat.succ_ne_zero 0), weekendCount_succ_left, if_neg h]
    simp
  · rw [dayBehind_pos (Nat.add_one_ne_zero n), dayBehind_pos h0, weekendCount_succ_left, if_neg h, Nat.zero_add,
      Nat.add_comm n 1, Nat.add_assoc]

/-- One day later, and one day more. The rounds of the two are compared one by one, so each half of the statement needs
    both halves for shorter allowances. -/
theorem dayBehind_step (n : Nat) :
    (∀ f, dayBehind f n ≤ dayBehind (f + 1) n) ∧ ∀ f, dayBehind f n ≤ dayBehind f (n + 1) := by
  induction n using Nat.strong_induction_on with
  | _ n ih =>
      by_cases h0 : n = 0
      · subst h0
        refine ⟨fun f => ?_, fun f => ?_⟩
        · simp
        · rw [dayBehind_zero]
          exact Nat.le_add_right f _
      -- a later round has an allowance of half the weekend days of this one, one more or one less
      have hlater : ∀ f q q', q < n → q = q' ∨ q + 1 = q' → dayBehind f q ≤ dayBehind (f + 1) q' := by
        rintro f q q' hq (rfl | rfl)
        · exact (ih q hq).1 f
        · exact Nat.le_trans ((ih q hq).1 f) ((ih q hq).2 (f + 1))
      refine ⟨fun f => ?_, fun f => ?_⟩
      · have hhalf := weekendCount_half_lt (f := f) h0
        have hfirst := weekendCount_succ_left f n
        have hlast := weekendCount_succ f n
        rw [dayBehind_pos h0, dayBehind_pos h0, Nat.add_right_comm]
        by_cases hless : weekendCount (f + 1) n / 2 < weekendCount f n / 2
        · -- the first day is a weekend day and the day behind the round is not
          have hweekday : ¬ Weekend (f + n) := by
            intro hw
            rw [if_pos hw] at hlast
            split at hfirst <;> omega
          obtain ⟨q, hq⟩ : ∃ q, weekendCount f n / 2 = q + 1 := ⟨weekendCount f n / 2 - 1, by omega⟩
          have hq' : weekendCount (f + 1) n / 2 = q := by
            rw [if_neg hweekday] at hlast
            split at hfirst <;> omega
          rw [hq, hq', dayBehind_weekday hweekday]
        · apply hlater _ _ _ hhalf
          split at hfirst <;> split at hlast <;> omega
      · have hhalf := weekendCount_half_lt (f := f) h0
        have hlast := weekendCount_succ f n
        rw [dayBehind_pos h0, dayBehind_pos (Nat.add_one_ne_zero n), ← Nat.add_assoc]
        apply hlater _ _ _ hhalf
        split at hlast <;> omega

/-- **A longer allowance never grants less.** -/
theorem extension_mono {f m n : Nat} (h : m ≤ n) : extension f m ≤ extension f n := by
  have hday : dayBehind f m ≤ dayBehind f n := monotone_nat_of_le_succ (fun k => (dayBehind_step k).2 f) h
  exact Nat.le_of_add_le_add_left hday

end Policy
end Hand2
