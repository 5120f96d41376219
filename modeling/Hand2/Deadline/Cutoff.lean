import Hand2.Time
import Hand2.Deadline.Policy
import Mathlib.Tactic.Ring

/-!
# `Deadline.Cutoff` — `calculate_cutoff` and `calculate_late_submission_day`

Both functions label the 24 hours after a time with a weekday (`penaltyWeekday`) and count weekend days
from that label with the same formula (`weekendDayBefore`). The lemmas below read them as the functions of
`Deadline.Policy`: a submission `daysLate` days late costs `chargedDays`, and the cutoff lies `extension`
days after the deadline.
-/

namespace Hand2

open Gregorian Policy

/-- `(t.tm_hour < 12) ? t.tm_wday : (t.tm_wday + 1) % 7`: the weekday that takes up most of the next 24
    hours, the later one when both take up half. -/
def penaltyWeekday (t : Tm) : Int := if t.hour < 12 then t.wday else (t.wday + 1).tmod 7

/-- `(weekday + 6) / 7 + weekday / 7`: the weekend days before label `weekday`. -/
def weekendDayBefore (weekday : Int) : Int := (cInt (weekday + 6)).tdiv 7 + weekday.tdiv 7

/-- The `while(day_left > 0)` loop of `calculate_cutoff`, for at most `fuel` rounds; the final values of
    `cutoff` and `day_left`. Every round shrinks `day_left`, so `cutoff_days` rounds are enough
    (`cutoffLoop_eq`). -/
def cutoffLoop : Nat → Int → Int → Int × Int
  | 0,        cutoff, dayLeft => (cutoff, dayLeft)
  | fuel + 1, cutoff, dayLeft =>
      if dayLeft > 0 then
        let weekday := penaltyWeekday (calendarTime cutoff)
        let weekendDayBeforeOldCutoff := weekendDayBefore weekday
        let weekendDayBeforeNewCutoff := weekendDayBefore (cInt (weekday + dayLeft))
        cutoffLoop fuel (cutoff + dayLeft * 86400)
          ((weekendDayBeforeNewCutoff - weekendDayBeforeOldCutoff).tdiv 2)
      else (cutoff, dayLeft)

/-- `calculate_cutoff`. The last product is one of two `int`s. -/
def calculateCutoff (deadline cutoffDays isWeekendsOneDay : Int) : Int :=
  let out := if isWeekendsOneDay ≠ 0 then cutoffLoop cutoffDays.toNat deadline cutoffDays
             else (deadline, cutoffDays)
  out.1 + cInt (out.2 * 86400)

/-- `calculate_late_submission_day`. -/
def calculateLateSubmissionDay (deadline submissionTime isWeekendsOneDay : Int) : Except Fault Int :=
  if submissionTime > deadline then
    let delay := cInt ((submissionTime - deadline + 86399).tdiv 86400)
    if ¬ delay > 0 then .error .assertion
    else if isWeekendsOneDay ≠ 0 then
      let firstPenaltyWeekday := penaltyWeekday (calendarTime deadline)
      let weekendDayBeforeDeadline := weekendDayBefore firstPenaltyWeekday
      let weekendDayBeforeSubmission := weekendDayBefore (cInt (firstPenaltyWeekday + delay))
      .ok (delay - (weekendDayBeforeSubmission - weekendDayBeforeDeadline).tdiv 2)
    else .ok delay
  else .ok 0

/-! ## The ranges in which no `int` overflows -/

/-- No `int` of `calculate_late_submission_day` overflows: the days late fit, with room for the weekday
    and the `6` of the rounding. -/
def LateInRange (deadline submissionTime : Int) : Prop :=
  (submissionTime - deadline + 86399) / 86400 + 12 ≤ intMax

instance (deadline submissionTime : Int) : Decidable (LateInRange deadline submissionTime) :=
  inferInstanceAs (Decidable ((submissionTime - deadline + 86399) / 86400 + 12 ≤ intMax))

/-- The `int`s that `calculate_late_submission_day` computes fit: the days late, and with weekends on the weekday
    behind them with the `6` of the rounding. -/
def LateFits (deadline submissionTime isWeekendsOneDay : Int) : Prop :=
  if isWeekendsOneDay = 0 then (submissionTime - deadline + 86399) / 86400 ≤ intMax
  else penaltyWeekday (calendarTime deadline) + (submissionTime - deadline + 86399) / 86400 + 6 ≤ intMax

instance (deadline submissionTime isWeekendsOneDay : Int) :
    Decidable (LateFits deadline submissionTime isWeekendsOneDay) :=
  inferInstanceAs (Decidable (if isWeekendsOneDay = 0 then _ else _))

/-- No `int` of `calculate_cutoff` overflows, nor of charging the day after the cutoff: with weekends off
    the product by 86400 fits; with weekends on the weekday arithmetic fits, and so does the year of every
    day the cutoff can reach (else `gmtime` fails). -/
def CutoffInRange (deadline cutoffDays isWeekendsOneDay : Int) : Prop :=
  if isWeekendsOneDay = 0 then cutoffDays * 86400 ≤ intMax
  else 2 * cutoffDays + 13 ≤ intMax ∧
    ∀ j, 0 ≤ j → j ≤ 2 * cutoffDays → CalendarInRange (deadline + 86400 * j)

/-- Ordinary deadlines and allowances are in range. -/
theorem cutoffInRange_of_bounds {deadline cutoffDays w : Int} (h0 : -900000000000000 ≤ deadline)
    (h1 : deadline ≤ 900000000000000) (hn0 : 0 ≤ cutoffDays) (hn1 : cutoffDays ≤ 24000) :
    CutoffInRange deadline cutoffDays w := by
  unfold CutoffInRange intMax
  split
  · omega
  · refine ⟨by omega, ?_⟩
    intro j hj0 hj1
    exact calendarInRange_of_bounds (by omega) (by omega)

/-- So is the deadline of the README. -/
theorem cutoffInRange_readme {cutoffDays w : Int} (hn0 : 0 ≤ cutoffDays) (hn1 : cutoffDays ≤ 24000) :
    CutoffInRange 1711036799 cutoffDays w :=
  cutoffInRange_of_bounds (by decide) (by decide) hn0 hn1

/-! ## Labels -/

/-- A weekday field is a weekday, also in the zeroed `tm` of a failed `gmtime`. -/
theorem calendarTime_wday (time : Int) :
    0 ≤ (calendarTime time).wday ∧ (calendarTime time).wday < 7 := by
  cases hg : gmtime (time + timeZoneUtc8 * 3600) with
  | none => rw [calendarTime_of_none hg]; decide
  | some t =>
      rw [calendarTime_of_some hg]
      simp only [gmtime] at hg
      split at hg
      · injection hg with hg; subst hg
        exact ⟨weekday_nonneg _, weekday_lt _⟩
      · exact absurd hg (by simp)

/-- The label of the first 24 hours of lateness, as a `Policy` label. -/
def firstPenaltyWeekday (deadline : Int) : Nat := (penaltyWeekday (calendarTime deadline)).toNat

theorem penaltyWeekday_eq (time : Int) :
    penaltyWeekday (calendarTime time) = firstPenaltyWeekday time := by
  obtain ⟨h0, h7⟩ := calendarTime_wday time
  have hnn : 0 ≤ penaltyWeekday (calendarTime time) := by
    unfold penaltyWeekday
    split
    · exact h0
    · exact Int.tmod_nonneg _ (by omega)
  rw [firstPenaltyWeekday, Int.toNat_of_nonneg hnn]

theorem firstPenaltyWeekday_lt (time : Int) : firstPenaltyWeekday time < 7 := by
  obtain ⟨h0, h7⟩ := calendarTime_wday time
  have hlt : penaltyWeekday (calendarTime time) < 7 := by
    unfold penaltyWeekday
    split
    · exact h7
    · exact Int.tmod_lt_of_pos _ (by omega)
  rw [penaltyWeekday_eq] at hlt
  omega

/-- Labels advance by one a day. -/
theorem firstPenaltyWeekday_add {time : Int} {k : Nat} (h : CalendarInRange time)
    (hk : CalendarInRange (time + k * 86400)) :
    firstPenaltyWeekday (time + k * 86400) = (firstPenaltyWeekday time + k) % 7 := by
  have h1 := penaltyWeekday_eq time
  have h2 := penaltyWeekday_eq (time + k * 86400)
  obtain ⟨hh, hw⟩ := calendarTime_hour_wday h
  obtain ⟨hhk, hwk⟩ := calendarTime_hour_wday hk
  have hdays : (time + k * 86400 + 28800) / 86400 = (time + 28800) / 86400 + k := by omega
  have hsecs : (time + k * 86400 + 28800) % 86400 = (time + 28800) % 86400 := by omega
  rw [hdays, weekday_add] at hwk
  rw [hsecs] at hhk
  have h0 := weekday_nonneg ((time + 28800) / 86400)
  unfold penaltyWeekday at h1 h2
  rw [hh, hw, Int.tmod_eq_emod_of_nonneg (by omega)] at h1
  rw [hhk, hwk, Int.tmod_eq_emod_of_nonneg (by omega)] at h2
  split at h1 <;> split at h2 <;> omega

/-- The program's weekend count between two labels is the policy's. -/
theorem weekendDayBefore_sub {f k : Nat} (h : (f : Int) + k + 6 ≤ intMax) :
    weekendDayBefore (cInt (f + k)) - weekendDayBefore f = weekendCount f k := by
  have hclosed := weekendCount_closed f k
  unfold weekendDayBefore intMax at *
  rw [cInt_eq (x := (f : Int) + k) (by omega) (by unfold intMax; omega),
    cInt_eq (x := (f : Int) + k + 6) (by omega) (by unfold intMax; omega),
    cInt_eq (x := (f : Int) + 6) (by omega) (by unfold intMax; omega),
    Int.tdiv_eq_ediv_of_nonneg (by omega), Int.tdiv_eq_ediv_of_nonneg (by omega),
    Int.tdiv_eq_ediv_of_nonneg (by omega), Int.tdiv_eq_ediv_of_nonneg (by omega)]
  omega

/-! ## The penalty side -/

/-- The started days of lateness: the least `k` with `submission ≤ deadline + k` days. -/
def daysLate (deadline submissionTime : Int) : Nat :=
  ((submissionTime - deadline + 86399) / 86400).toNat

theorem daysLate_le_iff {deadline submissionTime : Int} {k : Nat} :
    daysLate deadline submissionTime ≤ k ↔ submissionTime ≤ deadline + k * 86400 := by
  unfold daysLate
  omega

/-- With room for every weekday they fit. -/
theorem LateInRange.fits {deadline submissionTime : Int} (w : Int) (h : LateInRange deadline submissionTime) :
    LateFits deadline submissionTime w := by
  have hf := firstPenaltyWeekday_lt deadline
  unfold LateInRange at h
  unfold LateFits
  rw [penaltyWeekday_eq]
  split <;> omega

/-- **What a submission is charged**: its days late, or what the policy charges for them. -/
theorem calculateLateSubmissionDay_eq {deadline submissionTime w : Int} (h : LateFits deadline submissionTime w) :
    calculateLateSubmissionDay deadline submissionTime w
      = .ok (if w = 0 then (daysLate deadline submissionTime : Int)
             else chargedDays (firstPenaltyWeekday deadline) (daysLate deadline submissionTime)) := by
  unfold LateFits intMax at h
  rw [penaltyWeekday_eq] at h
  unfold calculateLateSubmissionDay
  by_cases hlate : submissionTime > deadline
  · have hdays : (daysLate deadline submissionTime : Int) = (submissionTime - deadline + 86399) / 86400 := by
      unfold daysLate; omega
    have hdelay : cInt ((submissionTime - deadline + 86399).tdiv 86400)
        = daysLate deadline submissionTime := by
      rw [Int.tdiv_eq_ediv_of_nonneg (by omega), hdays]
      apply cInt_eq
      · omega
      · unfold intMax
        split at h <;> omega
    have hpos : (0 : Int) < daysLate deadline submissionTime := by omega
    rw [if_pos hlate]
    simp only [hdelay, penaltyWeekday_eq]
    rw [if_neg (by omega)]
    by_cases hw : w = 0
    · simp [hw]
    · have hcount := weekendCount_le (firstPenaltyWeekday deadline) (daysLate deadline submissionTime)
      have hroom : (firstPenaltyWeekday deadline : Int) + daysLate deadline submissionTime + 6 ≤ intMax := by
        rw [if_neg hw] at h
        unfold intMax; omega
      rw [if_pos hw, if_neg hw, weekendDayBefore_sub hroom, Int.tdiv_eq_ediv_of_nonneg (by omega)]
      unfold chargedDays
      congr 1
      omega
  · have hzero : daysLate deadline submissionTime = 0 := by unfold daysLate; omega
    rw [if_neg hlate, hzero]
    split <;> simp [chargedDays]

/-! ## The cutoff side -/

/-- The `int`s that `calculate_cutoff` computes with weekends on fit, and so do the years of the days up to the cutoff
    (`gmtime` fails on no other time). -/
def CutoffFits (deadline cutoffDays : Int) : Prop :=
  penaltyWeekday (calendarTime deadline) + cutoffDays + 6 ≤ intMax ∧
    ∀ j : Nat, j ≤ extension (firstPenaltyWeekday deadline) cutoffDays.toNat → CalendarInRange (deadline + 86400 * j)

/-- What fits for the whole allowance fits for the round behind the first. -/
theorem CutoffFits.next {deadline : Int} {n : Nat} (h : CutoffFits deadline n) (h0 : n ≠ 0) :
    firstPenaltyWeekday (deadline + n * 86400) = (firstPenaltyWeekday deadline + n) % 7 ∧
    CutoffFits (deadline + n * 86400) (weekendCount (firstPenaltyWeekday deadline) n / 2 : Nat) := by
  obtain ⟨hroom, hcal⟩ := h
  rw [penaltyWeekday_eq] at hroom
  rw [Int.toNat_natCast, extension_pos h0] at hcal
  have hlabel : firstPenaltyWeekday (deadline + n * 86400) = (firstPenaltyWeekday deadline + n) % 7 := by
    have hhere := hcal 0 (Nat.zero_le _)
    have hthere := hcal n (by omega)
    rw [Int.natCast_zero, Int.mul_zero, Int.add_zero] at hhere
    rw [Int.mul_comm] at hthere
    exact firstPenaltyWeekday_add hhere hthere
  refine ⟨hlabel, ?_, ?_⟩
  · have hcount := weekendCount_le (firstPenaltyWeekday deadline) n
    have hlt := firstPenaltyWeekday_lt (deadline + n * 86400)
    rw [penaltyWeekday_eq]
    unfold intMax at *
    omega
  · intro j hj
    rw [hlabel, Int.toNat_natCast, extension_mod] at hj
    have hday := hcal (n + j) (by omega)
    rwa [show deadline + 86400 * ((n + j : Nat) : Int) = deadline + n * 86400 + 86400 * j by push_cast; ring] at hday

/-- **The loop adds the extension of the policy** and ends because no day is left. -/
theorem cutoffLoop_eq (fuel : Nat) (deadline : Int) (n : Nat) (hfuel : n ≤ fuel) (h : CutoffFits deadline n) :
    cutoffLoop fuel deadline n
      = (deadline + 86400 * extension (firstPenaltyWeekday deadline) n, 0) := by
  induction fuel generalizing deadline n with
  | zero =>
      obtain rfl : n = 0 := by omega
      simp [cutoffLoop]
  | succ fuel ih =>
      by_cases h0 : n = 0
      · subst h0; simp [cutoffLoop]
      · have hless := weekendCount_half_lt (f := firstPenaltyWeekday deadline) h0
        have hroom := h.1
        rw [penaltyWeekday_eq] at hroom
        have hhalf : (weekendCount (firstPenaltyWeekday deadline) n : Int).tdiv 2
            = (weekendCount (firstPenaltyWeekday deadline) n / 2 : Nat) := by
          rw [Int.tdiv_eq_ediv_of_nonneg (by omega)]; rfl
        -- the next round starts `n` days later, with half the weekend days of this one left
        obtain ⟨hlabel, hfits⟩ := h.next h0
        have hnext := ih (deadline + n * 86400) (weekendCount (firstPenaltyWeekday deadline) n / 2)
          (by omega) hfits
        rw [cutoffLoop, if_pos (by omega)]
        simp only [penaltyWeekday_eq]
        rw [weekendDayBefore_sub hroom, hhalf, hnext, hlabel, extension_mod, extension_pos h0]
        refine Prod.ext ?_ rfl
        push_cast
        ring

/-- **What the cutoff is with weekends on**: the extension of the allowance. -/
theorem calculateCutoff_weekends_eq {deadline w : Int} {n : Nat} (hw : w ≠ 0) (h : CutoffFits deadline n) :
    calculateCutoff deadline n w = deadline + 86400 * extension (firstPenaltyWeekday deadline) n := by
  simp only [calculateCutoff, ne_eq, hw, not_false_eq_true, if_true, Int.toNat_natCast]
  rw [cutoffLoop_eq n deadline n (Nat.le_refl n) h]
  simp [cInt]

/-- In range, what is computed fits. -/
theorem CutoffInRange.fits {deadline w : Int} {n : Nat} (hw : w ≠ 0) (h : CutoffInRange deadline n w) :
    CutoffFits deadline n := by
  unfold CutoffInRange at h
  rw [if_neg hw] at h
  have hf := firstPenaltyWeekday_lt deadline
  have hle := extension_le (firstPenaltyWeekday deadline) n
  constructor
  · rw [penaltyWeekday_eq]
    omega
  · intro j hj
    rw [Int.toNat_natCast] at hj
    exact h.2 j (Int.natCast_nonneg j) (by omega)

/-- **What the cutoff is**: the allowance itself with weekends off, its extension with weekends on. -/
theorem calculateCutoff_eq {deadline w : Int} {n : Nat} (h : CutoffInRange deadline n w) :
    calculateCutoff deadline n w
      = deadline + 86400 * (if w = 0 then (n : Int) else extension (firstPenaltyWeekday deadline) n) := by
  by_cases hw : w = 0
  · unfold CutoffInRange at h
    rw [if_pos hw] at h
    simp only [calculateCutoff, hw, ne_eq, not_true_eq_false, if_false, if_true]
    rw [cInt_eq (by omega) h, Int.mul_comm]
  · rw [if_neg hw]
    exact calculateCutoff_weekends_eq hw (h.fits hw)

/-! ## Longer allowances -/

/-- What fits for an allowance fits for a shorter one. -/
theorem CutoffFits.mono {deadline : Int} {m n : Nat} (h : CutoffFits deadline n) (hmn : m ≤ n) :
    CutoffFits deadline m := by
  obtain ⟨hroom, hcal⟩ := h
  have hext := extension_mono (f := firstPenaltyWeekday deadline) hmn
  refine ⟨by omega, ?_⟩
  intro j hj
  rw [Int.toNat_natCast] at hj hcal
  exact hcal j (by omega)

/-- **With weekends on, the loop ends with no day left**; the cutoff is a whole number of days behind the deadline, at
    least the allowance; it never comes earlier for a longer allowance; and a submission in the second of the cutoff is
    charged no more than the allowance. -/
theorem calculateCutoff_weekends {deadline m n : Int} (hm : 0 ≤ m) (hmn : m ≤ n) (h : CutoffFits deadline n) :
    (∀ fuel, n.toNat ≤ fuel → (cutoffLoop fuel deadline n).2 = 0) ∧
    (∃ days, n ≤ days ∧ calculateCutoff deadline n 1 - deadline = 86400 * days) ∧
    calculateCutoff deadline m 1 ≤ calculateCutoff deadline n 1 ∧
    (LateFits deadline (calculateCutoff deadline n 1) 1 →
      ∃ late, calculateLateSubmissionDay deadline (calculateCutoff deadline n 1) 1 = .ok late ∧ late ≤ n) := by
  obtain ⟨m, rfl⟩ := Int.eq_ofNat_of_zero_le hm
  obtain ⟨n, rfl⟩ := Int.eq_ofNat_of_zero_le (Int.le_trans hm hmn)
  have hle : m ≤ n := Int.ofNat_le.mp hmn
  have hcutoff := calculateCutoff_weekends_eq (w := 1) (by decide) h
  have hshorter := calculateCutoff_weekends_eq (w := 1) (by decide) (h.mono hle)
  have hfull := le_extension (firstPenaltyWeekday deadline) n
  have hmono := extension_mono (f := firstPenaltyWeekday deadline) hle
  refine ⟨?_, ⟨extension (firstPenaltyWeekday deadline) n, by omega, by omega⟩, by omega, ?_⟩
  · intro fuel hfuel
    rw [cutoffLoop_eq fuel deadline n (by simpa using hfuel) h]
  · intro hfits
    have hdays : daysLate deadline (calculateCutoff deadline n 1) = extension (firstPenaltyWeekday deadline) n := by
      rw [hcutoff]
      unfold daysLate
      omega
    rw [calculateLateSubmissionDay_eq hfits, if_neg (by decide), hdays]
    exact ⟨_, rfl, Int.ofNat_le.mpr (chargedDays_extension _ n)⟩

/-- Three and seven days after the Thursday night of the README. -/
theorem calculateCutoff_weekends_readme :
    calculateCutoff 1711036799 3 1 ≤ calculateCutoff 1711036799 7 1 ∧
      ∃ late, calculateLateSubmissionDay 1711036799 (calculateCutoff 1711036799 7 1) 1 = .ok late ∧ late ≤ 7 := by
  have hrange : CutoffInRange 1711036799 (7 : Nat) 1 := cutoffInRange_readme (by decide) (by decide)
  obtain ⟨-, -, hle, hlate⟩ := calculateCutoff_weekends (m := 3) (n := 7) (by decide) (by decide)
    (hrange.fits (by decide))
  exact ⟨hle, hlate (by decide)⟩

end Hand2
