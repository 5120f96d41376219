import Hand2.Deadline.Cutoff

/-!
# `Deadline.Agreement` — when the cutoff and the penalty draw the same line

With weekends off both sides draw the line `n` days after the deadline. With weekends on the cutoff is
rounded down once a round and the penalty once in all, so the cutoff can come too early: it never admits a
submission charged more than `n`, but it turns one away that is charged `n` as soon as the rounds drop a
second half weekend.
-/

namespace Hand2

open Policy

/-- The cutoff side of the line, in days late. -/
theorem le_calculateCutoff_iff {deadline t w : Int} {n : Nat} (h : CutoffInRange deadline n w) :
    t ≤ calculateCutoff deadline n w ↔
      daysLate deadline t ≤ (if w = 0 then n else extension (firstPenaltyWeekday deadline) n) := by
  rw [calculateCutoff_eq h, daysLate_le_iff, Int.mul_comm]
  split <;> rfl

/-- The penalty side of the line, in days late. -/
theorem charged_le_iff {deadline t w : Int} {n : Nat} (h : LateInRange deadline t) :
    (∃ late, calculateLateSubmissionDay deadline t w = .ok late ∧ late ≤ n) ↔
      (if w = 0 then daysLate deadline t
       else chargedDays (firstPenaltyWeekday deadline) (daysLate deadline t)) ≤ n := by
  rw [calculateLateSubmissionDay_eq (h.fits w)]
  constructor
  · rintro ⟨late, hl, hle⟩
    injection hl with hl
    subst hl
    split at hle <;> simp_all
  · intro hle
    refine ⟨_, rfl, ?_⟩
    split at hle <;> simp_all

/-- The day after the cutoff, as a submission time. -/
theorem daysLate_day_after (deadline : Int) (k : Nat) :
    daysLate deadline (deadline + (k + 1 : Nat) * 86400) = k + 1 := by
  unfold daysLate
  omega

/-- **Cutoff and penalty agree** for every submission time exactly when weekends are off or the rounds of
    the extension drop at most one half weekend. -/
theorem cutoff_agrees_with_penalty_iff (deadline cutoffDays w : Int) (hn : 0 ≤ cutoffDays)
    (h : CutoffInRange deadline cutoffDays w) :
    (∀ t, LateInRange deadline t →
      ((∃ late, calculateLateSubmissionDay deadline t w = .ok late ∧ late ≤ cutoffDays) ↔
        t ≤ calculateCutoff deadline cutoffDays w)) ↔
    (w = 0 ∨ halfWeekends (firstPenaltyWeekday deadline) cutoffDays.toNat ≤ 1) := by
  obtain ⟨n, rfl⟩ := Int.eq_ofNat_of_zero_le hn
  rw [Int.toNat_natCast]
  have hline : ∀ t, LateInRange deadline t →
      (((∃ late, calculateLateSubmissionDay deadline t w = .ok late ∧ late ≤ (n : Int)) ↔
        t ≤ calculateCutoff deadline n w) ↔
       ((if w = 0 then daysLate deadline t
         else chargedDays (firstPenaltyWeekday deadline) (daysLate deadline t)) ≤ n ↔
        daysLate deadline t ≤ (if w = 0 then n else extension (firstPenaltyWeekday deadline) n))) := by
    intro t ht
    rw [charged_le_iff ht, le_calculateCutoff_iff h]
  by_cases hw : w = 0
  · exact ⟨fun _ => Or.inl hw, fun _ t ht => (hline t ht).mpr (by rw [if_pos hw, if_pos hw])⟩
  · rw [← chargedDays_extension_succ]
    constructor
    · -- the day after the cutoff tells the two sides apart if it is not charged more than `n`
      intro hall
      right
      have hroom := h
      unfold CutoffInRange at hroom
      rw [if_neg hw] at hroom
      have hle := extension_le (firstPenaltyWeekday deadline) n
      have hafter := daysLate_day_after deadline (extension (firstPenaltyWeekday deadline) n)
      have hrange : LateInRange deadline
          (deadline + (extension (firstPenaltyWeekday deadline) n + 1 : Nat) * 86400) := by
        unfold LateInRange
        push_cast
        omega
      have hiff := (hline _ hrange).mp (hall _ hrange)
      rw [if_neg hw, if_neg hw, hafter] at hiff
      by_contra hcon
      have := hiff.mp (Nat.le_of_not_lt hcon)
      omega
    · rintro (h0 | hlt) t ht
      · exact absurd h0 hw
      · rw [hline t ht, if_neg hw, if_neg hw]
        constructor
        · intro hcharged
          by_contra hcon
          have := chargedDays_mono (f := firstPenaltyWeekday deadline)
            (show extension (firstPenaltyWeekday deadline) n + 1 ≤ daysLate deadline t by omega)
          omega
        · intro hdays
          exact Nat.le_trans (chargedDays_mono hdays) (chargedDays_extension _ n)

/-- The README's own example: three days after Thursday night, weekends as one day. -/
theorem cutoff_agrees_with_penalty_readme :
    CutoffInRange 1711036799 3 1 ∧
    ((∀ t, LateInRange 1711036799 t →
      ((∃ late, calculateLateSubmissionDay 1711036799 t 1 = .ok late ∧ late ≤ 3) ↔
        t ≤ calculateCutoff 1711036799 3 1)) ↔
    ((1 : Int) = 0 ∨ halfWeekends (firstPenaltyWeekday 1711036799) (3 : Int).toNat ≤ 1)) :=
  ⟨cutoffInRange_readme (by decide) (by decide),
   cutoff_agrees_with_penalty_iff 1711036799 3 1 (by decide) (cutoffInRange_readme (by decide) (by decide))⟩

/-- **Where they disagree**: two days after the Thursday deadline of the README. A submission on Sunday
    night is charged two days (Friday, and the weekend as one), yet the cutoff is Saturday night. -/
theorem cutoff_agrees_with_penalty_counterexample :
    ¬ ∀ deadline cutoffDays w t : Int, 0 ≤ cutoffDays → CutoffInRange deadline cutoffDays w →
      LateInRange deadline t →
      ((∃ late, calculateLateSubmissionDay deadline t w = .ok late ∧ late ≤ cutoffDays) ↔
        t ≤ calculateCutoff deadline cutoffDays w) := by
  intro hall
  have hiff := hall 1711036799 2 1 1711295999 (by decide) (cutoffInRange_readme (by decide) (by decide)) (by decide)
  have hcharged : calculateLateSubmissionDay 1711036799 1711295999 1 = .ok 2 := by decide
  have hcutoff : ¬ (1711295999 : Int) ≤ calculateCutoff 1711036799 2 1 := by decide
  exact hcutoff (hiff.mp ⟨2, hcharged, by decide⟩)

end Hand2
