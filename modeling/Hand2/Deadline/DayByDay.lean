import Hand2.Deadline.Cutoff
import Mathlib.Order.Bounds.Basic

/-!
# `Deadline.DayByDay` — the late days of the policy comment, counted one by one

The comment above `calculate_cutoff` states the policy in terms of the 24 hours after the deadline, the 24 hours after
those, and so on: each period belongs to the weekday most of its seconds fall on, the later one if two have as many.
`calculate_late_submission_day` counts none of these periods; it looks at the hour and the weekday of the deadline and
divides. `calculateLateSubmissionDay_dayByDay` says that it comes to the same.
-/

namespace Hand2

open Gregorian Policy

/-! ## The policy -/

/-- The seconds of the 24 hours from `start` that fall on the local day `day`. -/
def secondsOn (start day : Int) : Nat :=
  Nat.count (fun i => (start + i + timeZoneUtc8 * 3600) / 86400 = day) 86400

/-- The 24 hours from `start` belong to `day`: no day has more of their seconds, and no later day has as many. -/
def BelongsTo (start day : Int) : Prop :=
  ∀ other, secondsOn start other ≤ secondsOn start day ∧ (secondsOn start other = secondsOn start day → other ≤ day)

/-- The 24 hours from `start` are a Saturday or a Sunday. -/
def WeekendPeriod (start : Int) : Prop := ∃ day, BelongsTo start day ∧ (weekday day = 6 ∨ weekday day = 0)

/-- The day most of the seconds fall on, from the time of day alone. -/
def majorityDay (start : Int) : Int :=
  if (start + 28800) % 86400 < 43200 then (start + 28800) / 86400 else (start + 28800) / 86400 + 1

/-- The seconds on a day are the overlap of two intervals. -/
theorem count_secondsOn (start day : Int) (n : Nat) :
    (Nat.count (fun i : Nat => (start + i + 28800) / 86400 = day) n : Int)
      = max 0 (min (start + 28800 + n) (86400 * (day + 1)) - max (start + 28800) (86400 * day)) := by
  induction n with
  | zero =>
      rw [Nat.count_zero]
      omega
  | succ n ih =>
      rw [Nat.count_succ]
      push_cast
      rw [ih]
      split <;> omega

theorem secondsOn_eq (start day : Int) :
    (secondsOn start day : Int)
      = max 0 (min (start + 115200) (86400 * (day + 1)) - max (start + 28800) (86400 * day)) := by
  show ((Nat.count (fun i : Nat => (start + i + 28800) / 86400 = day) 86400 : Nat) : Int) = _
  rw [count_secondsOn]
  push_cast
  omega

/-- A period belongs to one day, the one the time of day tells. -/
theorem belongsTo_iff {start day : Int} : BelongsTo start day ↔ day = majorityDay start := by
  have hmajority : BelongsTo start (majorityDay start) := by
    intro other
    have hother := secondsOn_eq start other
    have hday := secondsOn_eq start (majorityDay start)
    unfold majorityDay at hday ⊢
    split at hday <;> split <;> omega
  constructor
  · intro h
    -- two such days have as many seconds as each other
    obtain ⟨hle, hlater⟩ := h (majorityDay start)
    obtain ⟨hle', hlater'⟩ := hmajority day
    have heq := Nat.le_antisymm hle hle'
    exact Int.le_antisymm (hlater' heq.symm) (hlater heq)
  · rintro rfl
    exact hmajority

theorem weekendPeriod_iff {start : Int} :
    WeekendPeriod start ↔ weekday (majorityDay start) = 6 ∨ weekday (majorityDay start) = 0 := by
  simp [WeekendPeriod, belongsTo_iff]

instance : DecidablePred WeekendPeriod := fun _ => decidable_of_iff _ weekendPeriod_iff.symm

/-- The weekend periods among the first `k` after the deadline. -/
def weekendPeriods (deadline : Int) (k : Nat) : Nat := Nat.count (fun i => WeekendPeriod (deadline + 86400 * i)) k

/-- **The policy.** Nothing up to the deadline; behind it the periods that have begun, with weekends on less one for
    every two of them that are weekend periods. -/
def DayByDay (deadline submissionTime isWeekendsOneDay late : Int) : Prop :=
  if submissionTime ≤ deadline then late = 0
  else ∃ k : Nat, IsLeast {k : Int | submissionTime ≤ deadline + 86400 * k} k ∧
    late = if isWeekendsOneDay = 0 then (k : Int) else k - weekendPeriods deadline k / 2

/-! ## The program -/

/-- The label of the first late day is the weekday of its period. -/
theorem firstPenaltyWeekday_majorityDay {deadline : Int} (h : CalendarInRange deadline) :
    (firstPenaltyWeekday deadline : Int) = weekday (majorityDay deadline) := by
  obtain ⟨hhour, hwday⟩ := calendarTime_hour_wday h
  have h0 := weekday_nonneg ((deadline + 28800) / 86400)
  have h7 := weekday_lt ((deadline + 28800) / 86400)
  rw [← penaltyWeekday_eq, penaltyWeekday, hhour, hwday, majorityDay]
  by_cases hmorning : (deadline + 28800) % 86400 < 43200
  · rw [if_pos hmorning, if_pos (by omega)]
  · rw [if_neg hmorning, if_neg (by omega), Int.tmod_eq_emod_of_nonneg (by omega), ← weekday_add]

/-- Days after the deadline the labels advance. -/
theorem weekendPeriod_after {deadline : Int} (h : CalendarInRange deadline) (i : Nat) :
    WeekendPeriod (deadline + 86400 * i) ↔ Weekend (firstPenaltyWeekday deadline + i) := by
  have hfirst := firstPenaltyWeekday_majorityDay h
  have hday : majorityDay (deadline + 86400 * i) = majorityDay deadline + i := by
    unfold majorityDay
    split <;> split <;> omega
  rw [weekendPeriod_iff, hday, weekday_add, ← hfirst, Weekend]
  omega

theorem weekendPeriods_eq {deadline : Int} (h : CalendarInRange deadline) (k : Nat) :
    weekendPeriods deadline k = weekendCount (firstPenaltyWeekday deadline) k := by
  unfold weekendPeriods weekendCount
  congr 1
  funext i
  exact propext (weekendPeriod_after h i)

/-- The days late are the periods that have begun. -/
theorem isLeast_daysLate {deadline submissionTime : Int} (hlate : deadline < submissionTime) :
    IsLeast {k : Int | submissionTime ≤ deadline + 86400 * k} (daysLate deadline submissionTime) := by
  constructor
  · have hle := daysLate_le_iff.mp (Nat.le_refl (daysLate deadline submissionTime))
    rwa [Int.mul_comm] at hle
  · intro k hk
    have hk' : submissionTime ≤ deadline + 86400 * k := hk
    unfold daysLate
    omega

/-- What fits for a submission fits for an earlier one. -/
theorem LateFits.mono {deadline t t' w : Int} (h : LateFits deadline t' w) (hle : t ≤ t') : LateFits deadline t w := by
  unfold LateFits at *
  split <;> split at h <;> omega

theorem daysLate_mono {deadline t t' : Int} (h : t ≤ t') : daysLate deadline t ≤ daysLate deadline t' := by
  unfold daysLate
  omega

theorem daysLate_add_day (deadline t : Int) : daysLate deadline (t + 86400) ≤ daysLate deadline t + 1 := by
  unfold daysLate
  omega

/-- **A submission is charged what the policy says.** So the charge never decreases as time goes on, and 24 hours more
    make it one more at most. -/
theorem calculateLateSubmissionDay_dayByDay {deadline : Int} (w : Int) (hcal : CalendarInRange deadline) :
    (∀ t, LateFits deadline t w →
      ∃ late, calculateLateSubmissionDay deadline t w = .ok late ∧ DayByDay deadline t w late) ∧
    (∀ t t' late late', t ≤ t' → LateFits deadline t' w → calculateLateSubmissionDay deadline t w = .ok late →
      calculateLateSubmissionDay deadline t' w = .ok late' → late ≤ late') ∧
    ∀ t late late', LateFits deadline (t + 86400) w → calculateLateSubmissionDay deadline t w = .ok late →
      calculateLateSubmissionDay deadline (t + 86400) w = .ok late' → late' ≤ late + 1 := by
  refine ⟨?_, ?_, ?_⟩
  · intro t hfits
    refine ⟨_, calculateLateSubmissionDay_eq hfits, ?_⟩
    unfold DayByDay
    by_cases hlate : t ≤ deadline
    · have hzero : daysLate deadline t = 0 := by unfold daysLate; omega
      rw [if_pos hlate, hzero]
      split <;> simp [chargedDays]
    · refine (if_neg hlate).mpr ⟨daysLate deadline t, isLeast_daysLate (by omega), ?_⟩
      have hcount := weekendCount_le (firstPenaltyWeekday deadline) (daysLate deadline t)
      rw [weekendPeriods_eq hcal, chargedDays]
      split <;> omega
  · intro t t' late late' hle hfits h h'
    rw [calculateLateSubmissionDay_eq (hfits.mono hle)] at h
    rw [calculateLateSubmissionDay_eq hfits] at h'
    injection h with h
    injection h' with h'
    have hdays : daysLate deadline t ≤ daysLate deadline t' := daysLate_mono hle
    have hcharge := chargedDays_mono (f := firstPenaltyWeekday deadline) hdays
    rw [← h, ← h']
    split <;> omega
  · intro t late late' hfits h h'
    rw [calculateLateSubmissionDay_eq (hfits.mono (by omega))] at h
    rw [calculateLateSubmissionDay_eq hfits] at h'
    injection h with h
    injection h' with h'
    have hdays := daysLate_add_day deadline t
    have hcharge := chargedDays_mono (f := firstPenaltyWeekday deadline) hdays
    have hstep := chargedDays_succ_le (firstPenaltyWeekday deadline) (daysLate deadline t)
    rw [← h, ← h']
    split <;> omega

/-- The third example of the comment: a deadline at noon on Friday, and noon on Monday. -/
theorem calculateLateSubmissionDay_dayByDay_noon :
    ∃ late, calculateLateSubmissionDay 1711080000 1711339200 1 = .ok late ∧ DayByDay 1711080000 1711339200 1 late :=
  (calculateLateSubmissionDay_dayByDay 1 (by decide)).1 1711339200 (by decide)

end Hand2
