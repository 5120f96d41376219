import Hand2.Common
import Hand2.Library.Gregorian

/-!
# `Time` — `calendar_time` and `parse_time`

`gmtime` and `timegm` are the C library's conversions on the proleptic Gregorian calendar. Times are
seconds since the epoch; the local time zone of the program is always UTC+8 (`TIME_ZONE_UTC8`).
-/

namespace Hand2

open Gregorian

/-- The fields of `struct tm` the program reads. -/
structure Tm where
  sec : Int
  min : Int
  hour : Int
  mday : Int
  mon : Int
  year : Int
  wday : Int
  deriving DecidableEq, Repr

/-- `tm t = {0}`. -/
def Tm.zero : Tm := ⟨0, 0, 0, 0, 0, 0, 0⟩

/-- `TIME_ZONE_UTC0`, `TIME_ZONE_UTC8`. -/
def timeZoneUtc0 : Int := 0
def timeZoneUtc8 : Int := 8

/-- `gmtime`: the null pointer when `tm_year` does not fit its `int`. -/
def gmtime (time : Int) : Option Tm :=
  let days := time / 86400
  let secs := time % 86400
  let date := civilFromDays days
  if -2147483648 ≤ date.year - 1900 ∧ date.year - 1900 ≤ intMax then
    some { sec := secs % 60, min := secs / 60 % 60, hour := secs / 3600,
           mday := date.day, mon := date.month - 1, year := date.year - 1900,
           wday := weekday days }
  else none

/-- `timegm`: months out of range carry into the year, days into the day number. -/
def timegm (t : Tm) : Int :=
  let first : Date := ⟨t.year + 1900 + t.mon / 12, t.mon % 12 + 1, 1⟩
  (daysFromCivil first + (t.mday - 1)) * 86400 + t.hour * 3600 + t.min * 60 + t.sec

/-- `calendar_time`. -/
def calendarTime (time : Int) : Tm :=
  let localTime := time + timeZoneUtc8 * 3600
  match gmtime localTime with
  | some t => t
  | none   => Tm.zero

theorem calendarTime_of_some {time : Int} {t : Tm} (h : gmtime (time + timeZoneUtc8 * 3600) = some t) :
    calendarTime time = t := by simp only [calendarTime, h]

theorem calendarTime_of_none {time : Int} (h : gmtime (time + timeZoneUtc8 * 3600) = none) :
    calendarTime time = Tm.zero := by simp only [calendarTime, h]

/-- `linux_calender_time_to_time`: `timegm` says `-1` for "failed", so that instant reads as one. -/
def calenderTimeToTime (t : Tm) (timeZone : Int) : Int :=
  let timePlusTimeZone := timegm t
  if timePlusTimeZone ≠ -1 then timePlusTimeZone - timeZone * 3600 else 0

/-- `parse_time`: accepts `YYYY-MM-DD`, `YYYY-MM-DD-hh-mm-ss` and `YYYY-MM-DDThh:mm:ssZ`, with any
    non-digits as separators; `0` for everything else. -/
def parseTime (string : CString) (timeZone : Int) : Int :=
  -- reading at the length of the string gives its terminator
  let c := fun i => string.bytes.getD i 0
  let digit := fun i => ((c i).toNat : Int) - 48
  let len := string.length
  if len = 10 ∧
     isDigit (c 0) ∧ isDigit (c 1) ∧ isDigit (c 2) ∧ isDigit (c 3) ∧
     isDigit (c 5) ∧ isDigit (c 6) ∧ isDigit (c 8) ∧ isDigit (c 9) ∧
     ¬ isDigit (c 4) ∧ ¬ isDigit (c 7) then
    let t : Tm := { Tm.zero with
      mday := digit 8 * 10 + digit 9,
      mon  := digit 5 * 10 + digit 6 - 1,
      year := digit 0 * 1000 + digit 1 * 100 + digit 2 * 10 + digit 3 - 1900 }
    if 0 ≤ t.mon ∧ t.mon ≤ 11 ∧ 1 ≤ t.mday ∧ t.mday ≤ 31 then calenderTimeToTime t timeZone else 0
  else if (len = 19 ∨ len = 20) ∧
     isDigit (c 0) ∧ isDigit (c 1) ∧ isDigit (c 2) ∧ isDigit (c 3) ∧
     isDigit (c 5) ∧ isDigit (c 6) ∧ isDigit (c 8) ∧ isDigit (c 9) ∧
     isDigit (c 11) ∧ isDigit (c 12) ∧ isDigit (c 14) ∧ isDigit (c 15) ∧
     isDigit (c 17) ∧ isDigit (c 18) ∧
     ¬ isDigit (c 4) ∧ ¬ isDigit (c 7) ∧ ¬ isDigit (c 10) ∧ ¬ isDigit (c 13) ∧
     ¬ isDigit (c 16) ∧ ¬ isDigit (c 19) then
    let t : Tm := { Tm.zero with
      sec  := digit 17 * 10 + digit 18,
      min  := digit 14 * 10 + digit 15,
      hour := digit 11 * 10 + digit 12,
      mday := digit 8 * 10 + digit 9,
      mon  := digit 5 * 10 + digit 6 - 1,
      year := digit 0 * 1000 + digit 1 * 100 + digit 2 * 10 + digit 3 - 1900 }
    if 0 ≤ t.mon ∧ t.mon ≤ 11 ∧ 1 ≤ t.mday ∧ t.mday ≤ 31 ∧
       0 ≤ t.hour ∧ t.hour ≤ 23 ∧ 0 ≤ t.min ∧ t.min ≤ 59 ∧ 0 ≤ t.sec ∧ t.sec ≤ 59 then
      calenderTimeToTime t timeZone
    else 0
  else 0

/-- The deadline of the README example, `2024-03-21 23:59:59` local time. -/
example : parseTime (CString.lit "2024-03-21-23-59-59") timeZoneUtc8 = 1711036799 := by decide

example : calendarTime 1711036799 = ⟨59, 59, 23, 21, 2, 124, 4⟩ := by decide

/-! ## What the weekday of a time depends on -/

/-- `gmtime` succeeds on the local time `time`, that is, its year fits an `int`. -/
def CalendarInRange (time : Int) : Prop := (gmtime (time + timeZoneUtc8 * 3600)).isSome

instance (time : Int) : Decidable (CalendarInRange time) :=
  inferInstanceAs (Decidable ((gmtime (time + timeZoneUtc8 * 3600)).isSome = true))

/-- Every time within some thirty million years of the epoch is in range. -/
theorem calendarInRange_of_bounds {time : Int} (h0 : -1000000000000000 ≤ time)
    (h1 : time ≤ 1000000000000000) : CalendarInRange time := by
  have hy := civilFromDays_year ((time + timeZoneUtc8 * 3600) / 86400)
  have hyear : -2147483648 ≤ (civilFromDays ((time + timeZoneUtc8 * 3600) / 86400)).year - 1900 ∧
      (civilFromDays ((time + timeZoneUtc8 * 3600) / 86400)).year - 1900 ≤ intMax := by
    unfold timeZoneUtc8 intMax at *
    omega
  unfold CalendarInRange gmtime
  simp only [hyear, and_self, if_true, Option.isSome_some]

/-- In range, the hour and weekday are those of the UTC+8 day the time falls in. -/
theorem calendarTime_hour_wday {time : Int} (h : CalendarInRange time) :
    (calendarTime time).hour = (time + 28800) % 86400 / 3600 ∧
    (calendarTime time).wday = weekday ((time + 28800) / 86400) := by
  unfold CalendarInRange at h
  obtain ⟨t, ht⟩ := Option.isSome_iff_exists.mp h
  rw [calendarTime_of_some ht]
  have hzone : time + timeZoneUtc8 * 3600 = time + 28800 := by
    simp [timeZoneUtc8]
  rw [hzone] at ht
  simp only [gmtime] at ht
  split at ht
  · injection ht with ht; subst ht; exact ⟨rfl, rfl⟩
  · exact absurd ht (by simp)

end Hand2
