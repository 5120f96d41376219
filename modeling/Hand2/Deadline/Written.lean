import Hand2.Time
import Mathlib.Data.List.GetD

/-!
# `Deadline.Written` — times as they are written

`parse_time` reads digits by their positions and leaves the calendar to `timegm`. `parseTime_eq` says what it reads in
terms of the fields that are written; a written time denotes an instant, whether or not its date exists. For the times
`calendar_time` gives it does, and parsing takes the writing back (`parseTime_written`).
-/

namespace Hand2

open Gregorian

/-- The fields of a written time. -/
structure WrittenTime where
  year : Int
  month : Int
  day : Int
  hour : Int
  minute : Int
  second : Int
  deriving DecidableEq, Repr

namespace WrittenTime

variable (w : WrittenTime)

/-- Its date. -/
def date : Date := ⟨w.year, w.month, w.day⟩

/-- The seconds since midnight. -/
def seconds : Int := w.hour * 3600 + w.minute * 60 + w.second

/-- The instant, in its own time zone. -/
def instant : Int := daysFromCivil w.date * 86400 + w.seconds

/-- The fields as `struct tm` has them. -/
def tm : Tm := { Tm.zero with
  sec := w.second, min := w.minute, hour := w.hour, mday := w.day, mon := w.month - 1, year := w.year - 1900 }

/-- The ranges `parse_time` checks, and what four digits can say. -/
structure InRange : Prop where
  year : 0 ≤ w.year ∧ w.year ≤ 9999
  month : 1 ≤ w.month ∧ w.month ≤ 12
  day : 1 ≤ w.day ∧ w.day ≤ 31
  hour : 0 ≤ w.hour ∧ w.hour ≤ 23
  minute : 0 ≤ w.minute ∧ w.minute ≤ 59
  second : 0 ≤ w.second ∧ w.second ≤ 59

end WrittenTime

/-- The fields of a `struct tm`, as one writes them. -/
def Tm.written (t : Tm) : WrittenTime := ⟨t.year + 1900, t.mon + 1, t.mday, t.hour, t.min, t.sec⟩

/-! ## The two conversions -/

section Conversions

variable {w : WrittenTime}

/-- What `timegm` gives. -/
theorem timegm_tm (h : w.InRange) : timegm w.tm = w.instant := by
  have hmonth := h.month
  have hday := daysFromCivil_day w.year w.month w.day
  have hcarry : (w.month - 1) / 12 = 0 := by omega
  have hrest : (w.month - 1) % 12 + 1 = w.month := by omega
  unfold timegm WrittenTime.tm WrittenTime.instant WrittenTime.seconds WrittenTime.date
  dsimp only
  rw [hcarry, hrest, hday, show w.year - 1900 + 1900 + 0 = w.year by omega]
  omega

/-- What `gmtime` gives: its fields are those of a date that exists. -/
theorem written_of_gmtime {time : Int} {t : Tm} (h : gmtime time = some t) :
    t.written.date = civilFromDays (time / 86400) ∧ t.written.seconds = time % 86400 ∧
      (0 ≤ t.hour ∧ t.hour ≤ 23) ∧ (0 ≤ t.min ∧ t.min ≤ 59) ∧ (0 ≤ t.sec ∧ t.sec ≤ 59) := by
  unfold gmtime at h
  dsimp only at h
  split at h
  · injection h with h
    subst h
    refine ⟨?_, ?_, ?_, ?_, ?_⟩
    · simp [Tm.written, WrittenTime.date]
    · show time % 86400 / 3600 * 3600 + time % 86400 / 60 % 60 * 60 + time % 86400 % 60 = time % 86400
      omega
    all_goals
      dsimp only
      omega
  · cases h

/-- The instant of what `gmtime` gives is the time. -/
theorem instant_of_gmtime {time : Int} {t : Tm} (h : gmtime time = some t) : t.written.instant = time := by
  obtain ⟨hdate, hseconds, -⟩ := written_of_gmtime h
  unfold WrittenTime.instant
  rw [hdate, hseconds, daysFromCivil_civilFromDays]
  omega

/-- Its fields are in range, if its year has at most four digits. -/
theorem inRange_of_gmtime {time : Int} {t : Tm} (h : gmtime time = some t)
    (hyear : 0 ≤ t.year + 1900 ∧ t.year + 1900 ≤ 9999) : t.written.InRange := by
  obtain ⟨hdate, -, hhour, hmin, hsec⟩ := written_of_gmtime h
  have hvalid : t.written.date.Valid := hdate ▸ civilFromDays_valid _
  refine ⟨hyear, hvalid.month, ?_, hhour, hmin, hsec⟩
  obtain ⟨hlow, hhigh⟩ := hvalid.day
  refine ⟨hlow, ?_⟩
  have hlen : daysInMonth t.written.date.year t.written.date.month ≤ 31 := by
    unfold daysInMonth
    split <;> split <;> omega
  exact Int.le_trans hhigh hlen

/-- A time of day does not carry into the date. -/
theorem seconds_lt (h : w.InRange) : 0 ≤ w.seconds ∧ w.seconds < 86400 := by
  have hhour := h.hour
  have hminute := h.minute
  have hsecond := h.second
  unfold WrittenTime.seconds
  omega

/-- The years of four digits are within the range of `gmtime`. -/
theorem instant_bounds (h : w.InRange) : -100000000000 ≤ w.instant ∧ w.instant ≤ 300000000000 := by
  have hyear := h.year
  have hmonth := h.month
  have hday := h.day
  have hseconds := seconds_lt h
  unfold WrittenTime.instant WrittenTime.date daysFromCivil
  dsimp only
  omega

/-- **What `gmtime` makes of an instant**: the time of day as it is written, and the date of the day the written date
    falls on. -/
theorem gmtime_instant (h : w.InRange) :
    ∃ t, gmtime w.instant = some t ∧
      t.written = ⟨(civilFromDays (daysFromCivil w.date)).year, (civilFromDays (daysFromCivil w.date)).month,
        (civilFromDays (daysFromCivil w.date)).day, w.hour, w.minute, w.second⟩ := by
  have hseconds := seconds_lt h
  have hdays : w.instant / 86400 = daysFromCivil w.date := by
    unfold WrittenTime.instant
    omega
  have hrest : w.instant % 86400 = w.seconds := by
    unfold WrittenTime.instant
    omega
  have hrange : CalendarInRange (w.instant - timeZoneUtc8 * 3600) := by
    have hbounds := instant_bounds h
    apply calendarInRange_of_bounds
    · unfold timeZoneUtc8
      omega
    · unfold timeZoneUtc8
      omega
  unfold CalendarInRange at hrange
  rw [Int.sub_add_cancel] at hrange
  obtain ⟨t, ht⟩ := Option.isSome_iff_exists.mp hrange
  refine ⟨t, ht, ?_⟩
  obtain ⟨hdate, hsame, hhour, hmin, hsec⟩ := written_of_gmtime ht
  rw [hdays] at hdate
  rw [hrest] at hsame
  have hhour' := h.hour
  have hminute' := h.minute
  have hsecond' := h.second
  have htime : t.hour = w.hour ∧ t.min = w.minute ∧ t.sec = w.second := by
    have hsum : t.hour * 3600 + t.min * 60 + t.sec = w.hour * 3600 + w.minute * 60 + w.second := hsame
    omega
  rw [← hdate]
  unfold Tm.written WrittenTime.date
  dsimp only
  rw [htime.1, htime.2.1, htime.2.2]

end Conversions

/-! ## What `parse_time` reads -/

/-- The byte at a position; reading at the length of the string gives its terminator. -/
def charAt (string : CString) (i : Nat) : UInt8 := string.bytes.getD i 0

/-- The digit at a position. -/
def digitAt (string : CString) (i : Nat) : Int := (charAt string i).toNat - 48

/-- `YYYY-MM-DD`, with any separators. -/
def DateForm (string : CString) : Prop :=
  string.length = 10 ∧ (∀ i ∈ [0, 1, 2, 3, 5, 6, 8, 9], isDigit (charAt string i)) ∧
    ∀ i ∈ [4, 7], ¬ isDigit (charAt string i)

/-- `YYYY-MM-DD-hh-mm-ss`, with any separators, and maybe one behind it. -/
def TimeForm (string : CString) : Prop :=
  (string.length = 19 ∨ string.length = 20) ∧
    (∀ i ∈ [0, 1, 2, 3, 5, 6, 8, 9, 11, 12, 14, 15, 17, 18], isDigit (charAt string i)) ∧
    ∀ i ∈ [4, 7, 10, 13, 16, 19], ¬ isDigit (charAt string i)

instance (string : CString) : Decidable (DateForm string) := inferInstanceAs (Decidable (_ ∧ _))
instance (string : CString) : Decidable (TimeForm string) := inferInstanceAs (Decidable (_ ∧ _))

/-- The fields that are written in a string; without a time of day it is midnight. -/
def written (string : CString) : WrittenTime where
  year := digitAt string 0 * 1000 + digitAt string 1 * 100 + digitAt string 2 * 10 + digitAt string 3
  month := digitAt string 5 * 10 + digitAt string 6
  day := digitAt string 8 * 10 + digitAt string 9
  hour := if string.length = 10 then 0 else digitAt string 11 * 10 + digitAt string 12
  minute := if string.length = 10 then 0 else digitAt string 14 * 10 + digitAt string 15
  second := if string.length = 10 then 0 else digitAt string 17 * 10 + digitAt string 18

instance (w : WrittenTime) : Decidable w.InRange :=
  decidable_of_iff ((0 ≤ w.year ∧ w.year ≤ 9999) ∧ (1 ≤ w.month ∧ w.month ≤ 12) ∧ (1 ≤ w.day ∧ w.day ≤ 31) ∧
      (0 ≤ w.hour ∧ w.hour ≤ 23) ∧ (0 ≤ w.minute ∧ w.minute ≤ 59) ∧ (0 ≤ w.second ∧ w.second ≤ 59))
    ⟨fun ⟨hy, hm, hd, hh, hn, hs⟩ => ⟨hy, hm, hd, hh, hn, hs⟩, fun h => ⟨h.1, h.2, h.3, h.4, h.5, h.6⟩⟩

section Reading

variable {string : CString}

/-- A digit has one of ten values. -/
theorem digitAt_range {i : Nat} (h : isDigit (charAt string i)) : 0 ≤ digitAt string i ∧ digitAt string i ≤ 9 := by
  simp only [isDigit, Bool.and_eq_true, decide_eq_true_eq] at h
  have hlow : 48 ≤ (charAt string i).toNat := h.1
  have hhigh : (charAt string i).toNat ≤ 57 := h.2
  unfold digitAt
  omega

/-- Four digits say at most 9999. -/
theorem written_year (h : ∀ i ∈ [0, 1, 2, 3], isDigit (charAt string i)) :
    0 ≤ (written string).year ∧ (written string).year ≤ 9999 := by
  have h0 := digitAt_range (h 0 (by decide))
  have h1 := digitAt_range (h 1 (by decide))
  have h2 := digitAt_range (h 2 (by decide))
  have h3 := digitAt_range (h 3 (by decide))
  unfold written
  dsimp only
  omega

/-- A date alone is read with midnight. -/
theorem DateForm.inRange_iff (h : DateForm string) :
    (written string).InRange ↔ 0 ≤ (written string).tm.mon ∧ (written string).tm.mon ≤ 11 ∧
      1 ≤ (written string).tm.mday ∧ (written string).tm.mday ≤ 31 := by
  have hyear := written_year fun i hi => h.2.1 i (List.mem_append_left [5, 6, 8, 9] hi)
  have hmidnight : (written string).hour = 0 ∧ (written string).minute = 0 ∧ (written string).second = 0 := by
    simp [written, h.1]
  constructor
  · intro hrange
    have hmonth := hrange.month
    have hday := hrange.day
    unfold WrittenTime.tm
    dsimp only
    omega
  · unfold WrittenTime.tm
    dsimp only
    intro hfields
    exact ⟨hyear, by omega, by omega, by omega, by omega, by omega⟩

/-- With a time of day, all fields are checked. -/
theorem TimeForm.inRange_iff (h : TimeForm string) :
    (written string).InRange ↔ 0 ≤ (written string).tm.mon ∧ (written string).tm.mon ≤ 11 ∧
      1 ≤ (written string).tm.mday ∧ (written string).tm.mday ≤ 31 ∧
      0 ≤ (written string).tm.hour ∧ (written string).tm.hour ≤ 23 ∧
      0 ≤ (written string).tm.min ∧ (written string).tm.min ≤ 59 ∧
      0 ≤ (written string).tm.sec ∧ (written string).tm.sec ≤ 59 := by
  have hyear := written_year fun i hi =>
    h.2.1 i (List.mem_append_left [5, 6, 8, 9, 11, 12, 14, 15, 17, 18] hi)
  constructor
  · intro hrange
    have hmonth := hrange.month
    have hday := hrange.day
    have hhour := hrange.hour
    have hminute := hrange.minute
    have hsecond := hrange.second
    unfold WrittenTime.tm
    dsimp only
    omega
  · unfold WrittenTime.tm
    dsimp only
    intro hfields
    exact ⟨hyear, by omega, by omega, by omega, by omega, by omega⟩

/-- **What `parse_time` reads.** -/
theorem parseTime_eq (string : CString) (timeZone : Int) :
    parseTime string timeZone =
      if (DateForm string ∨ TimeForm string) ∧ (written string).InRange then
        calenderTimeToTime (written string).tm timeZone
      else 0 := by
  unfold parseTime
  dsimp only
  by_cases hdate : DateForm string
  · have hlen := hdate.1
    rw [if_pos (by simpa [DateForm, charAt, and_assoc] using hdate)]
    simp only [hdate, hdate.inRange_iff, true_or, true_and]
    simp [written, WrittenTime.tm, digitAt, charAt, hlen, Tm.zero]
  · rw [if_neg (fun h => hdate (by simpa [DateForm, charAt, and_assoc] using h))]
    by_cases htime : TimeForm string
    · have hlen : string.length ≠ 10 := by
        have := htime.1
        omega
      rw [if_pos (by simpa [TimeForm, charAt, and_assoc] using htime)]
      simp only [htime, htime.inRange_iff, or_true, true_and]
      simp [written, WrittenTime.tm, digitAt, charAt, hlen, Tm.zero]
    · rw [if_neg (fun h => htime (by simpa [TimeForm, charAt, and_assoc] using h))]
      simp [hdate, htime]

/-- What is accepted denotes an instant. -/
theorem parseTime_of_inRange (timeZone : Int) (hform : DateForm string ∨ TimeForm string)
    (hrange : (written string).InRange) (hfailed : (written string).instant ≠ -1) :
    parseTime string timeZone = (written string).instant - timeZone * 3600 := by
  rw [parseTime_eq, if_pos ⟨hform, hrange⟩, calenderTimeToTime, timegm_tm hrange]
  exact if_pos hfailed

theorem inRange_of_parseTime {timeZone : Int} (h : parseTime string timeZone ≠ 0) :
    (DateForm string ∨ TimeForm string) ∧ (written string).InRange ∧
      parseTime string timeZone = (written string).instant - timeZone * 3600 := by
  have heq := parseTime_eq string timeZone
  split at heq
  · next hok =>
      obtain ⟨hform, hrange⟩ := hok
      refine ⟨hform, hrange, parseTime_of_inRange timeZone hform hrange ?_⟩
      intro hfailed
      rw [calenderTimeToTime, timegm_tm hrange, hfailed] at heq
      exact h heq
  · exact absurd heq h

end Reading

/-! ## Writing a time -/

/-- The last digit of a number. -/
def digitByte (n : Int) : UInt8 := (48 + (n % 10).toNat).toUInt8

theorem digitByte_toNat (n : Int) : ((digitByte n).toNat : Int) = 48 + n % 10 := by
  have hsmall : 48 + (n % 10).toNat < 256 := by omega
  unfold digitByte
  rw [Nat.toUInt8_eq, UInt8.toNat_ofNat_of_lt' hsmall]
  omega

theorem isDigit_digitByte (n : Int) : isDigit (digitByte n) = true := by
  have hval := digitByte_toNat n
  have hlow : 48 ≤ (digitByte n).toNat := by omega
  have hhigh : (digitByte n).toNat ≤ 57 := by omega
  simp only [isDigit, Bool.and_eq_true, decide_eq_true_eq]
  exact ⟨hlow, hhigh⟩

/-- `"%02d"` and `"%04d"`. -/
def twoDigits (n : Int) : List UInt8 := [digitByte (n / 10), digitByte n]
def fourDigits (n : Int) : List UInt8 := [digitByte (n / 1000), digitByte (n / 100), digitByte (n / 10), digitByte n]

/-- The byte `-`. -/
def dash : UInt8 := 45

/-- `YYYY-MM-DD`. -/
def WrittenTime.dateBytes (w : WrittenTime) : List UInt8 :=
  fourDigits w.year ++ dash :: (twoDigits w.month ++ dash :: twoDigits w.day)

/-- The time of day behind the date, with what stands before it, between its parts and behind it. -/
def WrittenTime.bytes (w : WrittenTime) (before between : UInt8) (behind : List UInt8) : List UInt8 :=
  w.dateBytes ++ before :: (twoDigits w.hour ++ between :: (twoDigits w.minute ++ between ::
    (twoDigits w.second ++ behind)))

theorem digitByte_ne_zero (n : Int) : 0 ≠ digitByte n := by
  intro h
  have hval := digitByte_toNat n
  rw [← h] at hval
  simp at hval
  omega

/-- `YYYY-MM-DD-hh-mm-ss`. -/
def WrittenTime.withDashes (w : WrittenTime) : CString where
  bytes := w.bytes dash dash []
  noNul := by simp [WrittenTime.bytes, WrittenTime.dateBytes, fourDigits, twoDigits, dash, digitByte_ne_zero]

/-- `YYYY-MM-DDThh:mm:ssZ`. -/
def WrittenTime.withColons (w : WrittenTime) : CString where
  bytes := w.bytes 84 58 [90]
  noNul := by simp [WrittenTime.bytes, WrittenTime.dateBytes, fourDigits, twoDigits, dash, digitByte_ne_zero]

section Writing

variable {w : WrittenTime} {string : CString}

/-- **Reading takes writing back.** -/
theorem written_of_bytes {before between : UInt8} {behind : List UInt8}
    (h : string.bytes = w.bytes before between behind)
    (hbefore : isDigit before = false) (hbetween : isDigit between = false)
    (hbehind : behind = [] ∨ ∃ c, behind = [c] ∧ isDigit c = false) (hrange : w.InRange) :
    TimeForm string ∧ written string = w := by
  have hlen : string.length = 19 + behind.length := by
    rw [CString.length, h]
    simp [WrittenTime.bytes, WrittenTime.dateBytes, fourDigits, twoDigits]
    omega
  have hlast : isDigit (behind.getD 0 0) = false := by
    rcases hbehind with rfl | ⟨c, rfl, hc⟩
    · rfl
    · exact hc
  have hdash : isDigit dash = false := by decide
  have hshort : behind.length ≤ 1 := by
    rcases hbehind with rfl | ⟨c, rfl, -⟩ <;> simp
  refine ⟨⟨by omega, ?_, ?_⟩, ?_⟩
  · simp [charAt, h, WrittenTime.bytes, WrittenTime.dateBytes, fourDigits, twoDigits, isDigit_digitByte]
  · simpa [charAt, h, WrittenTime.bytes, WrittenTime.dateBytes, fourDigits, twoDigits, hdash, hbefore, hbetween]
      using hlast
  · have hyear := hrange.year
    have hmonth := hrange.month
    have hday := hrange.day
    have hhour := hrange.hour
    have hminute := hrange.minute
    have hsecond := hrange.second
    have hne : string.length ≠ 10 := by omega
    obtain ⟨year, month, day, hour, minute, second⟩ := w
    dsimp only at hyear hmonth hday hhour hminute hsecond
    simp only [written, hne, if_false, digitAt, charAt, h, WrittenTime.bytes, WrittenTime.dateBytes, fourDigits,
      twoDigits, List.cons_append, List.nil_append, List.getD_cons_zero, List.getD_cons_succ, digitByte_toNat,
      WrittenTime.mk.injEq]
    omega

/-- `-00-00-00`. -/
def midnight : CString := CString.lit "-00-00-00"

theorem charAt_append_midnight (hlen : string.length = 10) :
    (∀ i < 10, charAt (string ++ midnight) i = charAt string i) ∧
      ∀ i < 10, charAt (string ++ midnight) (10 + i) = midnight.bytes.getD i 0 := by
  have hbytes : string.bytes.length = 10 := hlen
  constructor
  · intro i hi
    exact List.getD_append _ _ _ _ (by omega)
  · intro i _
    show (string.bytes ++ midnight.bytes).getD (10 + i) 0 = _
    rw [List.getD_append_right _ _ _ _ (by omega), hbytes, Nat.add_sub_cancel_left]

/-- **A date alone is that date at midnight.** -/
theorem parseTime_midnight (hlen : string.length = 10) (timeZone : Int) :
    parseTime (string ++ midnight) timeZone = parseTime string timeZone := by
  obtain ⟨hleft, hright⟩ := charAt_append_midnight hlen
  have hlong : (string ++ midnight).length = 19 := by
    rw [CString.length_append, hlen]
    rfl
  have hdashes : ∀ i ∈ [10, 13, 16, 19], ¬ isDigit (charAt (string ++ midnight) i) := by
    have h10 := hright 0 (by decide)
    have h13 := hright 3 (by decide)
    have h16 := hright 6 (by decide)
    have h19 := hright 9 (by decide)
    simp only [List.forall_mem_cons, h10, h13, h16, h19, List.not_mem_nil, false_imp_iff, implies_true, and_true]
    decide
  have hzeros : ∀ i ∈ [11, 12, 14, 15, 17, 18], charAt (string ++ midnight) i = 48 := by
    have h11 := hright 1 (by decide)
    have h12 := hright 2 (by decide)
    have h14 := hright 4 (by decide)
    have h15 := hright 5 (by decide)
    have h17 := hright 7 (by decide)
    have h18 := hright 8 (by decide)
    simp only [List.forall_mem_cons, h11, h12, h14, h15, h17, h18, List.not_mem_nil, false_imp_iff, implies_true,
      and_true]
    decide
  have hform : TimeForm (string ++ midnight) ↔ DateForm string := by
    unfold TimeForm DateForm
    rw [show [0, 1, 2, 3, 5, 6, 8, 9, 11, 12, 14, 15, 17, 18] = [0, 1, 2, 3, 5, 6, 8, 9] ++ [11, 12, 14, 15, 17, 18]
      from rfl, show [4, 7, 10, 13, 16, 19] = [4, 7] ++ [10, 13, 16, 19] from rfl, List.forall_mem_append,
      List.forall_mem_append]
    have hdigits : ∀ i ∈ [11, 12, 14, 15, 17, 18], isDigit (charAt (string ++ midnight) i) := by
      intro i hi
      rw [hzeros i hi]
      decide
    have hsame : ∀ l : List Nat, (∀ i ∈ l, i < 10) → ∀ p : UInt8 → Prop,
        (∀ i ∈ l, p (charAt (string ++ midnight) i)) ↔ ∀ i ∈ l, p (charAt string i) := by
      intro l hl p
      refine forall₂_congr fun i hi => ?_
      rw [hleft i (hl i hi)]
    rw [hsame _ (by decide) fun c => isDigit c = true, hsame _ (by decide) fun c => ¬ isDigit c = true]
    exact ⟨fun h => ⟨hlen, h.2.1.1, h.2.2.1⟩, fun h => ⟨.inl hlong, ⟨h.2.1, hdigits⟩, h.2.2, hdashes⟩⟩
  have hnot : ¬ DateForm (string ++ midnight) := fun h => absurd (hlong.symm.trans h.1) (by decide)
  have hnot' : ¬ TimeForm string := fun h => h.1.elim (fun h => absurd (hlen.symm.trans h) (by decide))
    (fun h => absurd (hlen.symm.trans h) (by decide))
  have hdigit : ∀ i < 10, digitAt (string ++ midnight) i = digitAt string i := by
    intro i hi
    rw [digitAt, hleft i hi, digitAt]
  have hzero : ∀ i ∈ [11, 12, 14, 15, 17, 18], digitAt (string ++ midnight) i = 0 := by
    intro i hi
    rw [digitAt, hzeros i hi]
    rfl
  have hwritten : written (string ++ midnight) = written string := by
    unfold written
    rw [hlong, hlen]
    simp [hdigit, hzero]
  rw [parseTime_eq, parseTime_eq, hwritten]
  simp only [hform, hnot, hnot', false_or, or_false]

/-- A time that is written and parsed. -/
theorem parseTime_bytes {before between : UInt8} {behind : List UInt8}
    (h : string.bytes = w.bytes before between behind)
    (hbefore : isDigit before = false) (hbetween : isDigit between = false)
    (hbehind : behind = [] ∨ ∃ c, behind = [c] ∧ isDigit c = false) (hrange : w.InRange) (timeZone : Int)
    (hfailed : w.instant ≠ -1) : parseTime string timeZone = w.instant - timeZone * 3600 := by
  obtain ⟨hform, hwritten⟩ := written_of_bytes h hbefore hbetween hbehind hrange
  rw [← hwritten] at hrange hfailed ⊢
  exact parseTime_of_inRange timeZone (.inr hform) hrange hfailed

end Writing

/-! ## There and back -/

/-- The year of a time in the local time zone. -/
def localYear (time : Int) : Int := (civilFromDays ((time + timeZoneUtc8 * 3600) / 86400)).year

/-- `gmtime` succeeds where the year has at most four digits. -/
theorem gmtime_of_year {time : Int} (h0 : 0 ≤ (civilFromDays (time / 86400)).year)
    (h1 : (civilFromDays (time / 86400)).year ≤ 9999) : ∃ t, gmtime time = some t ∧ t.written.InRange := by
  have hfits : -2147483648 ≤ (civilFromDays (time / 86400)).year - 1900 ∧
      (civilFromDays (time / 86400)).year - 1900 ≤ intMax := by
    unfold intMax
    omega
  have hsome : ∃ t, gmtime time = some t := by
    unfold gmtime
    dsimp only
    rw [if_pos hfits]
    exact ⟨_, rfl⟩
  obtain ⟨t, ht⟩ := hsome
  have hyear : t.year + 1900 = (civilFromDays (time / 86400)).year := congrArg Date.year (written_of_gmtime ht).1
  exact ⟨t, ht, inRange_of_gmtime ht (by omega)⟩

/-- Years do not come before the epoch. -/
theorem year_nonneg {time : Int} (h : 0 ≤ time) : 0 ≤ (civilFromDays (time / 86400)).year := by
  have hyear : (civilFromDays (time / 86400)).year ≤ -1 ↔ _ := civilFromDays_year_le
  have hepoch : daysFromCivil ⟨-1 + 1, 1, 1⟩ = -719528 := by decide
  omega

/-- **Writing a time and parsing it back.** The fields `calendar_time` gives for a time, written with dashes, are parsed
    to that time in the local time zone; those of `gmtime`, written as GitHub does, in Greenwich; and a date alone is
    parsed like that date at midnight. -/
theorem parseTime_written :
    (∀ t, 0 ≤ t → 1000 ≤ localYear t → localYear t ≤ 9999 →
      parseTime (calendarTime t).written.withDashes timeZoneUtc8 = t ∧
      ∃ utc, gmtime t = some utc ∧ parseTime utc.written.withColons timeZoneUtc0 = t) ∧
    ∀ string timeZone, DateForm string → parseTime string timeZone = parseTime (string ++ midnight) timeZone := by
  refine ⟨?_, fun string timeZone h => (parseTime_midnight h.1 timeZone).symm⟩
  intro t h0 _ hyear
  have hlocal : 0 ≤ t + timeZoneUtc8 * 3600 := by
    unfold timeZoneUtc8
    omega
  constructor
  · obtain ⟨tm, htm, hrange⟩ := gmtime_of_year (year_nonneg hlocal) hyear
    have hinstant := instant_of_gmtime htm
    rw [calendarTime_of_some htm, parseTime_bytes rfl (by decide) (by decide) (.inl rfl) hrange timeZoneUtc8 (by omega)]
    omega
  · -- in Greenwich the year is the same, or the one before
    have hutc : (civilFromDays (t / 86400)).year ≤ 9999 := by
      unfold localYear timeZoneUtc8 at hyear
      rw [civilFromDays_year_le] at hyear ⊢
      omega
    obtain ⟨tm, htm, hrange⟩ := gmtime_of_year (year_nonneg h0) hutc
    have hinstant := instant_of_gmtime htm
    refine ⟨tm, htm, ?_⟩
    rw [parseTime_bytes rfl (by decide) (by decide) (.inr ⟨90, rfl, by decide⟩) hrange timeZoneUtc0 (by omega)]
    unfold timeZoneUtc0
    omega

/-- The deadline of the README example. -/
theorem parseTime_written_readme :
    parseTime (calendarTime 1711036799).written.withDashes timeZoneUtc8 = 1711036799 ∧
      parseTime (CString.lit "2024-03-21") timeZoneUtc8
        = parseTime (CString.lit "2024-03-21" ++ midnight) timeZoneUtc8 :=
  ⟨(parseTime_written.1 1711036799 (by decide) (by decide) (by decide)).1, parseTime_written.2 _ _ (by decide)⟩

end Hand2
