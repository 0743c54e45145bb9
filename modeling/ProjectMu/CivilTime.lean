import ProjectMu.BlockPosition
import ProjectMu.RealTimeClock

/-!
# Times of the calendar

A time from 1970 on is the number of seconds since the start of that year: the seconds of the days
of the years and of the months before it, and those of its own day.
-/

namespace ProjectMu

open BlockPosition

def leapYear (year : ℕ) : Bool := decide (year % 4 = 0 ∧ (year % 100 ≠ 0 ∨ year % 400 = 0))

def daysInYear (year : ℕ) : ℕ := if leapYear year then 366 else 365

/-- The days of the years from 1970 on, and those of the months of a year. -/
abbrev yearLengths (i : ℕ) : ℕ := daysInYear (1970 + i)
abbrev monthLengths (year i : ℕ) : ℕ := daysInMonth year (i + 1)

/-- A time that there is in the calendar. -/
@[ext] structure CivilTime where
  year : ℕ
  month : ℕ
  day : ℕ
  hour : ℕ
  minute : ℕ
  second : ℕ
  year_ge : 1970 ≤ year
  month_ge : 1 ≤ month
  month_le : month ≤ 12
  day_ge : 1 ≤ day
  day_le : day ≤ daysInMonth year month
  hour_lt : hour < 24
  minute_lt : minute < 60
  second_lt : second < 60

theorem daysInMonth_pos (year month : ℕ) : 0 < daysInMonth year month := by
  unfold daysInMonth
  split_ifs <;> norm_num

theorem daysInYear_pos (year : ℕ) : 0 < daysInYear year := by
  unfold daysInYear
  split_ifs <;> norm_num

theorem daysInYear_le (year : ℕ) : daysInYear year ≤ 366 := by
  unfold daysInYear
  split_ifs <;> norm_num

theorem daysInMonth_congr {year year' : ℕ} (h : leapYear year = leapYear year') (month : ℕ) :
    daysInMonth year month = daysInMonth year' month := by
  have hiff (y : ℕ) : y % 4 = 0 ∧ y % 100 ≠ 0 ∨ y % 400 = 0 ↔ leapYear y = true := by
    rw [leapYear, decide_eq_true_iff]
    omega
  unfold daysInMonth
  simp only [hiff, h]

/-- There are two kinds of years. -/
theorem monthLengths_eq (year : ℕ) :
    monthLengths year = monthLengths (if leapYear year then 1972 else 1970) := by
  funext i
  apply daysInMonth_congr
  cases h : leapYear year <;> rfl

/-- The months make up the year. -/
theorem start_monthLengths_year (year : ℕ) :
    start (monthLengths year) 12 = daysInYear year := by
  rw [monthLengths_eq, daysInYear]
  cases leapYear year <;> rfl

namespace CivilTime

variable {c d : CivilTime}

def dayOfYear (c : CivilTime) : ℕ := start (monthLengths c.year) (c.month - 1) + (c.day - 1)

/-- The days since the start of 1970. -/
def days (c : CivilTime) : ℕ := start yearLengths (c.year - 1970) + c.dayOfYear

def secondsOfDay (c : CivilTime) : ℕ := c.hour * 3600 + c.minute * 60 + c.second

def seconds (c : CivilTime) : ℕ := c.days * 86400 + c.secondsOfDay

/-- The week starts with a Sunday, and 1970 with a Thursday. -/
def weekday (c : CivilTime) : ℕ := (c.days + 4) % 7

theorem secondsOfDay_lt (c : CivilTime) : c.secondsOfDay < 86400 := by
  have hhour := c.hour_lt
  have hminute := c.minute_lt
  have hsecond := c.second_lt
  unfold secondsOfDay
  omega

theorem day_lt (c : CivilTime) : c.day - 1 < monthLengths c.year (c.month - 1) := by
  have hday := c.day_ge
  have hmonth := c.month_ge
  have hle := c.day_le
  rw [monthLengths, Nat.sub_add_cancel hmonth]
  omega

theorem dayOfYear_lt (c : CivilTime) : c.dayOfYear < daysInYear c.year := by
  have hday := c.day_lt
  have hmonth := c.month_ge
  have hend := @end_le_start (monthLengths c.year) (c.month - 1) 12 (by have := c.month_le; omega)
  rw [start_monthLengths_year] at hend
  unfold dayOfYear
  omega

theorem dayOfYear_lt_yearLengths (c : CivilTime) :
    c.dayOfYear < yearLengths (c.year - 1970) := by
  rw [yearLengths, Nat.add_sub_cancel' c.year_ge]
  exact c.dayOfYear_lt

/-- The seconds tell the time. -/
theorem seconds_injective (h : c.seconds = d.seconds) : c = d := by
  have hc := c.secondsOfDay_lt
  have hd := d.secondsOfDay_lt
  have hdays : c.days = d.days := by
    unfold seconds at h
    omega
  have hrest : c.secondsOfDay = d.secondsOfDay := by
    unfold seconds at h
    omega
  obtain ⟨hyear, hday⟩ := unique c.dayOfYear_lt_yearLengths d.dayOfYear_lt_yearLengths hdays
  have hyearEq : c.year = d.year := by
    have := c.year_ge
    have := d.year_ge
    omega
  have hmonthDay : start (monthLengths c.year) (c.month - 1) + (c.day - 1) =
      start (monthLengths c.year) (d.month - 1) + (d.day - 1) := by
    have hdef : d.dayOfYear = start (monthLengths d.year) (d.month - 1) + (d.day - 1) := rfl
    rw [← hyearEq] at hdef
    exact hday.trans hdef
  have hdayLt := d.day_lt
  rw [← hyearEq] at hdayLt
  obtain ⟨hmonth, hdayEq⟩ := unique c.day_lt hdayLt hmonthDay
  have hcMonth := c.month_ge
  have hdMonth := d.month_ge
  have hcDay := c.day_ge
  have hdDay := d.day_ge
  have hcMinute := c.minute_lt
  have hdMinute := d.minute_lt
  have hcSecond := c.second_lt
  have hdSecond := d.second_lt
  unfold secondsOfDay at hrest
  ext <;> omega

/-- Every number of seconds is that of a time. -/
theorem exists_seconds (n : ℕ) : ∃ c : CivilTime, c.seconds = n := by
  obtain ⟨y, dayOfYear, hyear, hlt⟩ := exists_position (fun i => daysInYear_pos (1970 + i))
    (n / 86400)
  obtain ⟨m, d, hmonth, hday⟩ := exists_position (fun i => daysInMonth_pos (1970 + y) (i + 1))
    dayOfYear
  have hm : m < 12 := by
    by_contra hge
    have hstart := @start_le_start (monthLengths (1970 + y)) 12 m (by omega)
    rw [start_monthLengths_year] at hstart
    exact absurd hlt (by rw [← hmonth]; exact not_lt.mpr (hstart.trans (Nat.le_add_right _ _)))
  let c : CivilTime := {
    year := 1970 + y
    month := m + 1
    day := d + 1
    hour := n % 86400 / 3600
    minute := n % 3600 / 60
    second := n % 60
    year_ge := Nat.le_add_right _ _
    month_ge := Nat.le_add_left _ _
    month_le := hm
    day_ge := Nat.le_add_left _ _
    day_le := hday
    hour_lt := by omega
    minute_lt := by omega
    second_lt := by omega }
  have hdayOfYear : c.dayOfYear = dayOfYear := hmonth
  have hdays : c.days = n / 86400 := by
    rw [days, hdayOfYear, ← hyear]
    change start yearLengths (1970 + y - 1970) + _ = _
    rw [Nat.add_sub_cancel_left]
  refine ⟨c, ?_⟩
  rw [seconds, hdays]
  change n / 86400 * 86400 + (n % 86400 / 3600 * 3600 + n % 3600 / 60 * 60 + n % 60) = n
  omega

end CivilTime

end ProjectMu
