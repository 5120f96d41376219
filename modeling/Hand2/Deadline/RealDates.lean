import Hand2.Deadline.Written

/-!
# `Deadline.RealDates` — which deadlines are what they say

`parse_time` checks a day against 31 and not against its month, and `timegm` carries what is too much into the next
month. So a deadline denotes what it says exactly when its month has that day (`parseTime_denotes_iff`).
-/

namespace Hand2

open Gregorian

/-- The day that is written is one of its month. -/
def RealDate (string : CString) : Prop :=
  (written string).day ≤ daysInMonth (written string).year (written string).month

instance (string : CString) : Decidable (RealDate string) := inferInstanceAs (Decidable (_ ≤ _))

/-- The result denotes what is written. -/
def Denotes (string : CString) : Prop := (calendarTime (parseTime string timeZoneUtc8)).written = written string

instance (string : CString) : Decidable (Denotes string) := inferInstanceAs (Decidable (_ = _))

section Accepted

variable {string : CString}

/-- The calendar's fields for an accepted deadline. -/
theorem calendarTime_parseTime (h : parseTime string timeZoneUtc8 ≠ 0) :
    (calendarTime (parseTime string timeZoneUtc8)).written =
      ⟨(civilFromDays (daysFromCivil (written string).date)).year,
        (civilFromDays (daysFromCivil (written string).date)).month,
        (civilFromDays (daysFromCivil (written string).date)).day,
        (written string).hour, (written string).minute, (written string).second⟩ := by
  obtain ⟨-, hrange, hparse⟩ := inRange_of_parseTime h
  obtain ⟨t, ht, hfields⟩ := gmtime_instant hrange
  have hlocal : gmtime (parseTime string timeZoneUtc8 + timeZoneUtc8 * 3600) = some t := by
    rw [hparse, Int.sub_add_cancel]
    exact ht
  rw [calendarTime_of_some hlocal, hfields]

/-- In range, the date exists if its month has the day. -/
theorem valid_iff_realDate (h : (written string).InRange) : (written string).date.Valid ↔ RealDate string :=
  ⟨fun hvalid => hvalid.day.2, fun hreal => ⟨h.month, h.day.1, hreal⟩⟩

end Accepted

/-- **When an accepted deadline denotes what it says**: its month has the day. Of two such deadlines, in whatever form,
    that denote the same instant, the fields are the same. -/
theorem parseTime_denotes_iff {string : CString} (h : parseTime string timeZoneUtc8 ≠ 0) :
    (Denotes string ↔ RealDate string) ∧
    ∀ string', parseTime string' timeZoneUtc8 = parseTime string timeZoneUtc8 → RealDate string → RealDate string' →
      written string' = written string := by
  have hdenotes : ∀ {s : CString}, parseTime s timeZoneUtc8 ≠ 0 → (Denotes s ↔ RealDate s) := by
    intro s hs
    obtain ⟨-, hrange, -⟩ := inRange_of_parseTime hs
    unfold Denotes
    rw [← valid_iff_realDate hrange, ← civilFromDays_daysFromCivil_iff, calendarTime_parseTime hs]
    -- the time of day is what is written in any case
    constructor
    · intro heq
      have hyear := congrArg WrittenTime.year heq
      have hmonth := congrArg WrittenTime.month heq
      have hday := congrArg WrittenTime.day heq
      dsimp only at hyear hmonth hday
      show civilFromDays _ = Date.mk _ _ _
      rw [← hyear, ← hmonth, ← hday]
    · intro hdate
      rw [hdate]
      rfl
  refine ⟨hdenotes h, ?_⟩
  intro string' hsame hreal hreal'
  have hwritten := (hdenotes h).mpr hreal
  have hwritten' := (hdenotes (hsame ▸ h)).mpr hreal'
  unfold Denotes at hwritten hwritten'
  rw [← hwritten', hsame, hwritten]

/-- The deadline of the README example is one. -/
theorem parseTime_denotes_readme : Denotes (CString.lit "2024-03-21-23-59-59") := by
  have haccepted : parseTime (CString.lit "2024-03-21-23-59-59") timeZoneUtc8 ≠ 0 := by decide
  exact (parseTime_denotes_iff haccepted).1.mpr (by decide)

/-- **30 February**: it is accepted, and denotes 1 March. -/
theorem parseTime_counterexample :
    parseTime (CString.lit "2024-02-30") timeZoneUtc8 ≠ 0 ∧ ¬ Denotes (CString.lit "2024-02-30") ∧
      parseTime (CString.lit "2024-02-30") timeZoneUtc8 = parseTime (CString.lit "2024-03-01") timeZoneUtc8 ∧
      CString.lit "2024-02-30" ≠ CString.lit "2024-03-01" := by
  decide

end Hand2
