import Mathlib.Data.Int.Init

/-!
# `Library.Gregorian` — the proleptic Gregorian calendar on day numbers

Day `0` is 1970-01-01. A year is counted from 1 March, so that the leap day is its last day: 400-year
eras of 146097 days, then the year of the era, then the day of the year. Days and the dates that exist
correspond (`daysFromCivil_civilFromDays`, `civilFromDays_daysFromCivil_iff`).
-/

namespace Gregorian

/-- A date: year, month `1 .. 12`, day of the month `1 .. 31`. -/
structure Date where
  year : Int
  month : Int
  day : Int
  deriving DecidableEq, Repr

/-- The day number of a date. -/
def daysFromCivil (date : Date) : Int :=
  let y := if date.month ≤ 2 then date.year - 1 else date.year
  let era := y / 400
  let yoe := y % 400
  let mp := (date.month + 9) % 12
  let doy := (153 * mp + 2) / 5 + date.day - 1
  let doe := yoe * 365 + yoe / 4 - yoe / 100 + doy
  era * 146097 + doe - 719468

/-- The date of a day number. -/
def civilFromDays (days : Int) : Date :=
  let z := days + 719468
  let era := z / 146097
  let doe := z % 146097
  let yoe := (doe - doe / 1460 + doe / 36524 - doe / 146096) / 365
  let doy := doe - (365 * yoe + yoe / 4 - yoe / 100)
  let mp := (5 * doy + 2) / 153
  let month := if mp < 10 then mp + 3 else mp - 9
  { year  := era * 400 + yoe + (if month ≤ 2 then 1 else 0),
    month := month,
    day   := doy - (153 * mp + 2) / 5 + 1 }

/-- The year of a day number lies in its 400-year era. -/
theorem civilFromDays_year (days : Int) :
    (days + 719468) / 146097 * 400 ≤ (civilFromDays days).year ∧
    (civilFromDays days).year ≤ (days + 719468) / 146097 * 400 + 401 := by
  have h0 := Int.emod_nonneg (days + 719468) (show (146097 : Int) ≠ 0 by decide)
  have h1 := Int.emod_lt_of_pos (days + 719468) (show (0 : Int) < 146097 by decide)
  have hyoe : ∀ doe : Int, 0 ≤ doe → doe < 146097 →
      0 ≤ (doe - doe / 1460 + doe / 36524 - doe / 146096) / 365 ∧
      (doe - doe / 1460 + doe / 36524 - doe / 146096) / 365 < 401 := by
    intro doe hd0 hd1
    omega
  have := hyoe _ h0 h1
  simp only [civilFromDays]
  constructor <;> (split <;> omega)

/-- The weekday of a day number, `0` for Sunday (1970-01-01 is a Thursday). -/
def weekday (days : Int) : Int := (days + 4) % 7

theorem weekday_nonneg (days : Int) : 0 ≤ weekday days := by unfold weekday; omega

theorem weekday_lt (days : Int) : weekday days < 7 := by unfold weekday; omega

/-- Weekdays advance by one a day. -/
theorem weekday_add (days k : Int) : weekday (days + k) = (weekday days + k) % 7 := by
  unfold weekday; omega

/-! ## Dates that exist -/

/-- Every fourth year, but of the hundreds only every fourth. -/
def IsLeapYear (year : Int) : Prop := year % 4 = 0 ∧ (year % 100 ≠ 0 ∨ year % 400 = 0)

instance (year : Int) : Decidable (IsLeapYear year) :=
  inferInstanceAs (Decidable (year % 4 = 0 ∧ (year % 100 ≠ 0 ∨ year % 400 = 0)))

/-- The length of a month. -/
def daysInMonth (year month : Int) : Int :=
  if month = 2 then (if IsLeapYear year then 29 else 28)
  else if month = 4 ∨ month = 6 ∨ month = 9 ∨ month = 11 then 30
  else 31

/-- The calendar has this date. -/
structure Date.Valid (date : Date) : Prop where
  month : 1 ≤ date.month ∧ date.month ≤ 12
  day : 1 ≤ date.day ∧ date.day ≤ daysInMonth date.year date.month

/-- The days of an era before its year `yoe`. -/
def yearStart (yoe : Int) : Int := yoe * 365 + yoe / 4 - yoe / 100

/-- A day of a year that is counted from March; the last is a leap day. -/
def DayOfYear (yoe doy : Int) : Prop := 0 ≤ doy ∧ (doy ≤ 364 ∨ (doy = 365 ∧ IsLeapYear (yoe + 1)))

/-- A year of an era by hundreds, fours and the rest. -/
theorem year_digits {yoe : Int} (h : 0 ≤ yoe ∧ yoe < 400) :
    ∃ c q r : Int, (0 ≤ c ∧ c ≤ 3) ∧ (0 ≤ q ∧ q ≤ 24) ∧ (0 ≤ r ∧ r ≤ 3) ∧ yoe = 100 * c + 4 * q + r :=
  ⟨yoe / 100, yoe % 100 / 4, yoe % 4, by omega⟩

theorem yearStart_digits {c q r : Int} (hq : 0 ≤ q ∧ q ≤ 24) (hr : 0 ≤ r ∧ r ≤ 3) :
    yearStart (100 * c + 4 * q + r) = 36524 * c + 1461 * q + 365 * r := by
  unfold yearStart
  omega

theorem dayOfYear_digits {c q r doy : Int} (hc : 0 ≤ c ∧ c ≤ 3) (hq : 0 ≤ q ∧ q ≤ 24) (hr : 0 ≤ r ∧ r ≤ 3) :
    DayOfYear (100 * c + 4 * q + r) doy ↔ 0 ≤ doy ∧ (doy ≤ 364 ∨ (doy = 365 ∧ r = 3 ∧ (q ≠ 24 ∨ c = 3))) := by
  unfold DayOfYear IsLeapYear
  omega

/-- The quotient by which `civilFromDays` finds the year. -/
theorem quotient_eq {c q r doy : Int} (doe : Int) (hc : 0 ≤ c ∧ c ≤ 3) (hq : 0 ≤ q ∧ q ≤ 24) (hr : 0 ≤ r ∧ r ≤ 3)
    (hdoy : 0 ≤ doy ∧ (doy ≤ 364 ∨ (doy = 365 ∧ r = 3 ∧ (q ≠ 24 ∨ c = 3))))
    (hdoe : doe = 36524 * c + 1461 * q + 365 * r + doy) :
    (doe - doe / 1460 + doe / 36524 - doe / 146096) / 365 = 100 * c + 4 * q + r := by
  have hcentury : doe / 36524 = c ∨ (doe / 36524 = 4 ∧ doe / 146096 = 1 ∧ c = 3 ∧ q = 24 ∧ r = 3 ∧ doy = 365) := by
    omega
  have hera : doe / 146096 = 0 ∨ (doe / 36524 = 4 ∧ doe / 146096 = 1 ∧ c = 3 ∧ q = 24 ∧ r = 3 ∧ doy = 365) := by
    omega
  have hfours : doe / 1460 = 25 * c + q ∨ doe / 1460 = 25 * c + q + 1 := by omega
  omega

/-- The days of an era are those of its years. -/
theorem exists_yearOfEra (doe : Int) (h0 : 0 ≤ doe) (h1 : doe < 146097) :
    ∃ yoe doy, (0 ≤ yoe ∧ yoe < 400) ∧ DayOfYear yoe doy ∧ doe = yearStart yoe + doy := by
  obtain ⟨c, n, hc, hn, rfl⟩ : ∃ c n : Int, (0 ≤ c ∧ c ≤ 3) ∧ (0 ≤ n ∧ (n ≤ 36523 ∨ (n = 36524 ∧ c = 3))) ∧
      doe = 36524 * c + n := ⟨min 3 (doe / 36524), doe - 36524 * min 3 (doe / 36524), by omega⟩
  obtain ⟨q, m, hq, hm, rfl⟩ : ∃ q m : Int, (0 ≤ q ∧ q ≤ 24) ∧
      (0 ≤ m ∧ (m ≤ 1459 ∨ (m = 1460 ∧ (q ≠ 24 ∨ c = 3)))) ∧ n = 1461 * q + m := ⟨n / 1461, n % 1461, by omega⟩
  obtain ⟨r, doy, hr, hdoy, rfl⟩ : ∃ r doy : Int, (0 ≤ r ∧ r ≤ 3) ∧
      (0 ≤ doy ∧ (doy ≤ 364 ∨ (doy = 365 ∧ r = 3 ∧ (q ≠ 24 ∨ c = 3)))) ∧ m = 365 * r + doy :=
    ⟨min 3 (m / 365), m - 365 * min 3 (m / 365), by omega⟩
  refine ⟨100 * c + 4 * q + r, doy, by omega, (dayOfYear_digits hc hq hr).mpr hdoy, ?_⟩
  rw [yearStart_digits hq hr]
  omega

/-- A day by its year, counted from March, and the day of that year. -/
theorem civilFromDays_of_year {days yoe doy : Int} (era : Int) (hyoe : 0 ≤ yoe ∧ yoe < 400) (hdoy : DayOfYear yoe doy)
    (hdays : days + 719468 = era * 146097 + (yearStart yoe + doy)) :
    civilFromDays days =
      let mp := (5 * doy + 2) / 153
      let month := if mp < 10 then mp + 3 else mp - 9
      ⟨era * 400 + yoe + (if month ≤ 2 then 1 else 0), month, doy - (153 * mp + 2) / 5 + 1⟩ := by
  obtain ⟨c, q, r, hc, hq, hr, rfl⟩ := year_digits hyoe
  have hstart := yearStart_digits (c := c) hq hr
  have hdoy' := (dayOfYear_digits hc hq hr).mp hdoy
  have hquot := quotient_eq (yearStart (100 * c + 4 * q + r) + doy) hc hq hr hdoy' (by omega)
  have hera : (days + 719468) / 146097 = era := by omega
  have hrest : (days + 719468) % 146097 = yearStart (100 * c + 4 * q + r) + doy := by omega
  have hback : ∀ yoe : Int, yearStart yoe + doy - (365 * yoe + yoe / 4 - yoe / 100) = doy := by
    intro yoe
    unfold yearStart
    omega
  unfold civilFromDays
  simp only [hera, hrest, hquot, hback]

/-- Every day is one of a year. -/
theorem exists_year (days : Int) : ∃ era yoe doy, (0 ≤ yoe ∧ yoe < 400) ∧ DayOfYear yoe doy ∧
    days + 719468 = era * 146097 + (yearStart yoe + doy) := by
  obtain ⟨yoe, doy, hyoe, hdoy, hdoe⟩ := exists_yearOfEra ((days + 719468) % 146097) (by omega) (by omega)
  exact ⟨(days + 719468) / 146097, yoe, doy, hyoe, hdoy, by omega⟩

/-- The year of a month, counted from March, is a leap year if its last day is the 366th. -/
theorem leap_of_dayOfYear {yoe doy : Int} (h : DayOfYear yoe doy) (era : Int) :
    0 ≤ doy ∧ (doy ≤ 364 ∨ (doy = 365 ∧ IsLeapYear (era * 400 + yoe + 1))) := by
  unfold DayOfYear IsLeapYear at *
  omega

/-- The month of a day of the year, counted from March, and the day of the month. -/
theorem month_of_day {doy : Int} (h0 : 0 ≤ doy) (h1 : doy ≤ 365) :
    (0 ≤ (5 * doy + 2) / 153 ∧ (5 * doy + 2) / 153 ≤ 11) ∧ (153 * ((5 * doy + 2) / 153) + 2) / 5 ≤ doy ∧
      doy < (153 * ((5 * doy + 2) / 153 + 1) + 2) / 5 := by
  omega

/-- **Every day has a date.** -/
theorem civilFromDays_valid (days : Int) : (civilFromDays days).Valid := by
  obtain ⟨era, yoe, doy, hyoe, hdoy, hdays⟩ := exists_year days
  rw [civilFromDays_of_year era hyoe hdoy hdays]
  obtain ⟨h0, hlast⟩ := leap_of_dayOfYear hdoy era
  obtain ⟨⟨hm0, hm1⟩, hfirst, hnext⟩ := month_of_day h0 (by omega)
  generalize era * 400 + yoe = year at hlast
  generalize (5 * doy + 2) / 153 = mp at hm0 hm1 hfirst hnext
  clear hdays hdoy hyoe
  have hmp : mp = 0 ∨ mp = 1 ∨ mp = 2 ∨ mp = 3 ∨ mp = 4 ∨ mp = 5 ∨ mp = 6 ∨ mp = 7 ∨ mp = 8 ∨ mp = 9 ∨ mp = 10 ∨
      mp = 11 := by omega
  rcases hmp with rfl | rfl | rfl | rfl | rfl | rfl | rfl | rfl | rfl | rfl | rfl | rfl
  case inr.inr.inr.inr.inr.inr.inr.inr.inr.inr.inr =>
    -- February, with its leap day
    refine ⟨by simp, ?_⟩
    simp only [daysInMonth]
    have hday : doy = 365 → IsLeapYear (year + 1) := fun heq => (hlast.resolve_left (by omega)).2
    by_cases hleap : IsLeapYear (year + 1)
    · simp [hleap]
      omega
    · have hne : doy ≠ 365 := fun heq => hleap (hday heq)
      simp [hleap]
      omega
  all_goals
    refine ⟨by simp, ?_⟩
    simp [daysInMonth]
    omega

/-- **The day number of the date of a day** is that day. -/
theorem daysFromCivil_civilFromDays (days : Int) : daysFromCivil (civilFromDays days) = days := by
  obtain ⟨era, yoe, doy, hyoe, hdoy, hdays⟩ := exists_year days
  rw [civilFromDays_of_year era hyoe hdoy hdays]
  obtain ⟨h0, hlast⟩ := leap_of_dayOfYear hdoy era
  obtain ⟨⟨hm0, hm1⟩, -, -⟩ := month_of_day h0 (by omega)
  generalize (5 * doy + 2) / 153 = mp at hm0 hm1
  -- January and February belong to the year before
  have hyear : (if (if mp < 10 then mp + 3 else mp - 9) ≤ 2 then
      era * 400 + yoe + (if (if mp < 10 then mp + 3 else mp - 9) ≤ 2 then 1 else 0) - 1
      else era * 400 + yoe + (if (if mp < 10 then mp + 3 else mp - 9) ≤ 2 then 1 else 0)) = era * 400 + yoe := by
    omega
  have hmonth : ((if mp < 10 then mp + 3 else mp - 9) + 9) % 12 = mp := by omega
  have hera : (era * 400 + yoe) / 400 = era := by omega
  have hyoe' : (era * 400 + yoe) % 400 = yoe := by omega
  unfold daysFromCivil
  simp only [hyear, hmonth, hera, hyoe']
  unfold yearStart at hdays
  omega

theorem isLeapYear_era (year : Int) : IsLeapYear ((year - 1) % 400 + 1) ↔ IsLeapYear year := by
  unfold IsLeapYear
  omega

/-- The day of the year, counted from March, of a date that exists. -/
theorem Date.Valid.dayOfYear {date : Date} (h : date.Valid) :
    DayOfYear ((if date.month ≤ 2 then date.year - 1 else date.year) % 400)
        ((153 * ((date.month + 9) % 12) + 2) / 5 + date.day - 1) ∧
      (5 * ((153 * ((date.month + 9) % 12) + 2) / 5 + date.day - 1) + 2) / 153 = (date.month + 9) % 12 := by
  obtain ⟨year, month, day⟩ := date
  obtain ⟨⟨hm0, hm1⟩, hd0, hd1⟩ := h
  dsimp only at hm0 hm1 hd0 hd1 ⊢
  have hmonth : month = 1 ∨ month = 2 ∨ month = 3 ∨ month = 4 ∨ month = 5 ∨ month = 6 ∨ month = 7 ∨ month = 8 ∨
      month = 9 ∨ month = 10 ∨ month = 11 ∨ month = 12 := by omega
  rcases hmonth with rfl | rfl | rfl | rfl | rfl | rfl | rfl | rfl | rfl | rfl | rfl | rfl
  case inr.inl =>
    have hleap := isLeapYear_era year
    simp only [daysInMonth, if_true] at hd1
    refine ⟨⟨by omega, ?_⟩, ?_⟩
    · by_cases hyear : IsLeapYear year
      · simp only [if_pos hyear] at hd1
        by_cases hlast : day = 29
        · right
          subst hlast
          exact ⟨by decide, hleap.mpr hyear⟩
        · left
          omega
      · simp only [if_neg hyear] at hd1
        left
        omega
    · have hday : day ≤ 29 := by split at hd1 <;> omega
      omega
  all_goals
    simp [daysInMonth] at hd1
    refine ⟨⟨by omega, ?_⟩, by omega⟩
    left
    omega

/-- **The date of the day number of a date** is that date, if it exists. -/
theorem civilFromDays_daysFromCivil {date : Date} (h : date.Valid) : civilFromDays (daysFromCivil date) = date := by
  obtain ⟨hdoy, hmonth⟩ := h.dayOfYear
  have hm := h.month
  obtain ⟨year, month, day⟩ := date
  dsimp only at hdoy hmonth hm
  rw [civilFromDays_of_year ((if month ≤ 2 then year - 1 else year) / 400) (by omega) hdoy
    (by unfold daysFromCivil yearStart; dsimp only; omega)]
  simp only [hmonth]
  have hmonth' : (if (month + 9) % 12 < 10 then (month + 9) % 12 + 3 else (month + 9) % 12 - 9) = month := by omega
  rw [hmonth']
  congr 1
  · omega
  · omega

/-- Only a date that exists is the date of its day number. -/
theorem civilFromDays_daysFromCivil_iff {date : Date} : civilFromDays (daysFromCivil date) = date ↔ date.Valid :=
  ⟨fun h => h ▸ civilFromDays_valid _, civilFromDays_daysFromCivil⟩

/-- Days of a month follow one another, also behind its end. -/
theorem daysFromCivil_day (year month day : Int) :
    daysFromCivil ⟨year, month, day⟩ = daysFromCivil ⟨year, month, 1⟩ + (day - 1) := by
  unfold daysFromCivil
  dsimp only
  omega

/-- The day number of the first of March. -/
def marchFirst (year : Int) : Int := 365 * year + year / 4 - year / 100 + year / 400 - 719468

theorem marchFirst_add (year : Int) {n : Int} (hn : 0 < n) : marchFirst year + 365 * n ≤ marchFirst (year + n) := by
  unfold marchFirst
  have h4 : year / 4 ≤ (year + n) / 4 := by omega
  have h400 : (year + n) / 100 - year / 100 ≤ (year + n) / 4 - year / 4 := by omega
  have h1 : year / 400 ≤ (year + n) / 400 := by omega
  omega

/-- A date counted from its first of March. -/
theorem daysFromCivil_eq (year month day : Int) :
    daysFromCivil ⟨year, month, day⟩
      = marchFirst (if month ≤ 2 then year - 1 else year) + (153 * ((month + 9) % 12) + 2) / 5 + (day - 1) := by
  unfold daysFromCivil marchFirst
  dsimp only
  generalize (if month ≤ 2 then year - 1 else year) = y
  omega

/-- The year of a day is over when the next one begins. -/
theorem civilFromDays_year_le {days year : Int} :
    (civilFromDays days).year ≤ year ↔ days < daysFromCivil ⟨year + 1, 1, 1⟩ := by
  have hvalid := civilFromDays_valid days
  have hdays := daysFromCivil_civilFromDays days
  generalize civilFromDays days = date at hvalid hdays
  obtain ⟨y, m, d⟩ := date
  obtain ⟨⟨hm0, hm1⟩, hd0, hd1⟩ := hvalid
  have hd31 : d ≤ 31 := by
    refine Int.le_trans hd1 ?_
    unfold daysInMonth
    split <;> split <;> omega
  dsimp only at hm0 hm1 hd0 ⊢
  clear hd1
  have hnext : daysFromCivil ⟨year + 1, 1, 1⟩ = marchFirst year + 306 := by
    rw [daysFromCivil_eq, if_pos (by decide), Int.add_sub_cancel]
    omega
  rw [← hdays, daysFromCivil_eq, hnext]
  have hbefore : ∀ {a b : Int}, a < b → marchFirst a + 365 ≤ marchFirst b := by
    intro a b hab
    have hmono := marchFirst_add a (n := b - a) (by omega)
    rw [show a + (b - a) = b by omega] at hmono
    omega
  by_cases hearly : m ≤ 2
  -- January and February are counted with the year before
  · rw [if_pos hearly]
    rcases Int.lt_trichotomy (y - 1) year with hlt | rfl | hgt
    · have := hbefore hlt
      omega
    · omega
    · have := hbefore hgt
      omega
  · rw [if_neg hearly]
    rcases Int.lt_trichotomy y year with hlt | rfl | hgt
    · have := hbefore hlt
      omega
    · omega
    · have := hbefore hgt
      omega

end Gregorian
