import ProjectMu.CivilTime

/-!
# The C time functions

`gmtime` takes the seconds since 1970 apart by walking over the years and back over the months,
and `calculateTimeT` puts them together again. `time` reads the clock of the fallback library, and
`mktime` hands the fields of a `Tm` on as they are.
-/

namespace ProjectMu.TimerWrapper

open BlockPosition

def secsPerMin : BitVec 64 := 60
def secsPerHour : BitVec 64 := 60 * 60
def secsPerDay : BitVec 64 := 24 * secsPerHour
def efiUnspecifiedTimezone : BitVec 16 := 0x07FF

def cumulativeDays (leap : Bool) : List (BitVec 64) :=
  if leap then
    [0, 0, 31, 31 + 29, 31 + 29 + 31, 31 + 29 + 31 + 30, 31 + 29 + 31 + 30 + 31,
      31 + 29 + 31 + 30 + 31 + 30, 31 + 29 + 31 + 30 + 31 + 30 + 31,
      31 + 29 + 31 + 30 + 31 + 30 + 31 + 31, 31 + 29 + 31 + 30 + 31 + 30 + 31 + 31 + 30,
      31 + 29 + 31 + 30 + 31 + 30 + 31 + 31 + 30 + 31,
      31 + 29 + 31 + 30 + 31 + 30 + 31 + 31 + 30 + 31 + 30,
      31 + 29 + 31 + 30 + 31 + 30 + 31 + 31 + 30 + 31 + 30 + 31]
  else
    [0, 0, 31, 31 + 28, 31 + 28 + 31, 31 + 28 + 31 + 30, 31 + 28 + 31 + 30 + 31,
      31 + 28 + 31 + 30 + 31 + 30, 31 + 28 + 31 + 30 + 31 + 30 + 31,
      31 + 28 + 31 + 30 + 31 + 30 + 31 + 31, 31 + 28 + 31 + 30 + 31 + 30 + 31 + 31 + 30,
      31 + 28 + 31 + 30 + 31 + 30 + 31 + 31 + 30 + 31,
      31 + 28 + 31 + 30 + 31 + 30 + 31 + 31 + 30 + 31 + 30,
      31 + 28 + 31 + 30 + 31 + 30 + 31 + 31 + 30 + 31 + 30 + 31]

/-- The remainders are those of signed numbers. -/
def isLeap (timer : BitVec 64) : Bool :=
  timer.srem 4 == 0 && (timer.srem 100 != 0 || timer.srem 400 == 0)

/-- The loop over the years. It compares for equality, and wraps around if it starts behind. -/
def addYears : ℕ → BitVec 64 → BitVec 64 → BitVec 64
  | 0, _, calTime => calTime
  | n + 1, year, calTime =>
    addYears n (year + 1) (calTime + ((cumulativeDays (isLeap year)).getD 13 0) * secsPerDay)

/-- The number of its passes. -/
def yearPasses (time : EfiTime) : ℕ := (time.year.setWidth 64 - 1970 : BitVec 64).toNat

/-- There is no result for a month that the table does not have. -/
def calculateTimeT (time : EfiTime) : Option (BitVec 64) :=
  let calTime := addYears (yearPasses time) 1970 0
  (cumulativeDays (isLeap (time.year.setWidth 64)))[time.month.toNat]?.map fun days =>
    calTime +
      (if time.timeZone ≠ efiUnspecifiedTimezone then time.timeZone.signExtend 64 * 60 else 0) +
      days * secsPerDay +
      (if 0 < time.day then time.day.setWidth 64 - 1 else 0) * secsPerDay +
      time.hour.setWidth 64 * secsPerHour +
      time.minute.setWidth 64 * 60 +
      time.second.setWidth 64

/-- The result, and what `timer` points to. `stack` is what the local variable holds. There is no
result if the assertion of the clock fails. -/
def time (stack : EfiTime) (timerFreq performanceCounter : BitVec 64)
    (timer : Option (BitVec 64)) : Option (BitVec 64 × Option (BitVec 64)) :=
  (libGetTime (some stack) none timerFreq performanceCounter).bind fun answer =>
    match answer.status, answer.time with
    | .ok _, some time =>
      if time.year < 1970 then some (0, timer)
      else (calculateTimeT time).map fun calTime => (calTime, timer.map fun _ => calTime)
    | _, _ => some (0, timer)

structure Tm where
  tmSec : BitVec 32
  tmMin : BitVec 32
  tmHour : BitVec 32
  tmMday : BitVec 32
  tmMon : BitVec 32
  tmYear : BitVec 32
  tmWday : BitVec 32
  tmYday : BitVec 32
  tmIsdst : BitVec 32
  tmGmtoff : BitVec 64
  tmZone : Option String
  deriving DecidableEq

/-- What `mktime` hands on. `stack` is what the local variable holds. -/
def mktimeTime (t : Tm) (stack : EfiTime) : EfiTime :=
  { stack with
    year := t.tmYear.setWidth 16
    month := t.tmMon.setWidth 8
    day := t.tmMday.setWidth 8
    hour := t.tmHour.setWidth 8
    minute := t.tmMin.setWidth 8
    second := t.tmSec.setWidth 8
    timeZone := efiUnspecifiedTimezone }

def mktime (t : Tm) (stack : EfiTime) : Option (BitVec 64) := calculateTimeT (mktimeTime t stack)

def totalDays (year : BitVec 64) : BitVec 64 := if isLeap year then 366 else 365

theorem toNat_totalDays_pos (year : BitVec 64) : 0 < (totalDays year).toNat := by
  unfold totalDays
  split_ifs <;> decide

/-- The days that are left, the year and the number of years gone by. -/
def gmtimeYears (dayNo year yearNo : BitVec 64) : BitVec 64 × BitVec 64 × BitVec 64 :=
  if 0 < dayNo then
    if totalDays year ≤ dayNo then
      gmtimeYears (dayNo - totalDays year) (year + 1) (yearNo + 1)
    else (dayNo, year, yearNo)
  else (dayNo, year, yearNo)
termination_by dayNo.toNat
decreasing_by
  rename_i hle
  have hpos := toNat_totalDays_pos year
  rw [BitVec.toNat_sub_of_le hle]
  have hleNat := BitVec.le_def.mp hle
  omega

/-- The loop back over the months, with the month that it ends at. -/
def gmtimeMonths (leap : Bool) (dayNo : BitVec 64) : ℕ → ℕ × BitVec 64
  | 0 => (0, dayNo)
  | 1 => (1, dayNo)
  | monthNo + 2 =>
    let days := (cumulativeDays leap).getD (monthNo + 2) 0
    if days ≤ dayNo then (monthNo + 2, dayNo - days) else gmtimeMonths leap dayNo (monthNo + 1)

def gmtime (timer : Option (BitVec 64)) (allocated : Bool) : Option Tm :=
  match timer with
  | none => none
  | some timer =>
    if allocated then
      let dayNo := timer.sdiv secsPerDay
      let dayRemainder := timer.srem secsPerDay
      let years := gmtimeYears dayNo 1970 0
      let months := gmtimeMonths (isLeap years.2.1) years.1 12
      some {
        tmSec := (dayRemainder.srem secsPerMin).setWidth 32
        tmMin := ((dayRemainder.srem secsPerHour).sdiv secsPerMin).setWidth 32
        tmHour := (dayRemainder.sdiv secsPerHour).setWidth 32
        tmMday := months.2.setWidth 32 + 1
        tmMon := BitVec.ofNat 32 months.1 - 1
        tmYear := (years.2.2 + (1970 - 1900)).setWidth 32
        tmWday := ((dayNo + 4).srem 7).setWidth 32
        tmYday := years.1.setWidth 32
        tmIsdst := 0
        tmGmtoff := 0
        tmZone := none }
    else none

/-- The fields of a time of the calendar. -/
def tmOf (c : CivilTime) : Tm where
  tmSec := BitVec.ofNat 32 c.second
  tmMin := BitVec.ofNat 32 c.minute
  tmHour := BitVec.ofNat 32 c.hour
  tmMday := BitVec.ofNat 32 c.day
  tmMon := BitVec.ofNat 32 (c.month - 1)
  tmYear := BitVec.ofNat 32 (c.year - 1900)
  tmWday := BitVec.ofNat 32 c.weekday
  tmYday := BitVec.ofNat 32 c.dayOfYear
  tmIsdst := 0
  tmGmtoff := 0
  tmZone := none

/-- The fields, as the signed numbers that they are, are those of a time of the calendar. -/
structure Tm.Tells (tm : Tm) (c : CivilTime) : Prop where
  sec : tm.tmSec.toInt = c.second
  min : tm.tmMin.toInt = c.minute
  hour : tm.tmHour.toInt = c.hour
  mday : tm.tmMday.toInt = c.day
  mon : tm.tmMon.toInt = c.month - 1
  year : tm.tmYear.toInt = c.year - 1900
  wday : tm.tmWday.toInt = c.weekday
  yday : tm.tmYday.toInt = c.dayOfYear

/-- The time is that of the calendar, in its own time zone. -/
structure Shows (time : EfiTime) (c : CivilTime) : Prop where
  year : time.year.toNat = c.year
  month : time.month.toNat = c.month
  day : time.day.toNat = c.day
  hour : time.hour.toNat = c.hour
  minute : time.minute.toNat = c.minute
  second : time.second.toNat = c.second

/-- The minutes by which universal time is ahead. -/
def zoneMinutes (time : EfiTime) : ℤ :=
  if time.timeZone = efiUnspecifiedTimezone then 0 else time.timeZone.toInt

theorem msb_ofNat {n : ℕ} (hn : n < 2 ^ 63) : (BitVec.ofNat 64 n).msb = false := by
  rw [BitVec.msb_eq_false_iff_two_mul_lt, BitVec.toNat_ofNat]
  omega

theorem toNat_ofNat {n : ℕ} (hn : n < 2 ^ 63) : (BitVec.ofNat 64 n).toNat = n := by
  rw [BitVec.toNat_ofNat]
  exact Nat.mod_eq_of_lt (by omega)

theorem srem_ofNat {n k : ℕ} (hn : n < 2 ^ 63) (hk : k < 2 ^ 63) :
    (BitVec.ofNat 64 n).srem (BitVec.ofNat 64 k) = BitVec.ofNat 64 (n % k) := by
  rw [BitVec.srem_eq, msb_ofNat hn, msb_ofNat hk]
  apply BitVec.eq_of_toNat_eq
  have hmod := Nat.mod_le n k
  change (BitVec.ofNat 64 n % BitVec.ofNat 64 k).toNat = _
  rw [BitVec.toNat_umod, toNat_ofNat hn, toNat_ofNat hk, toNat_ofNat (by omega)]

theorem sdiv_ofNat {n k : ℕ} (hn : n < 2 ^ 63) (hk : k < 2 ^ 63) :
    (BitVec.ofNat 64 n).sdiv (BitVec.ofNat 64 k) = BitVec.ofNat 64 (n / k) := by
  rw [BitVec.sdiv_eq, msb_ofNat hn, msb_ofNat hk]
  apply BitVec.eq_of_toNat_eq
  have hdiv := Nat.div_le_self n k
  change (BitVec.ofNat 64 n / BitVec.ofNat 64 k).toNat = _
  rw [BitVec.toNat_udiv, toNat_ofNat hn, toNat_ofNat hk, toNat_ofNat (by omega)]

theorem ofNat_eq_zero_iff {n : ℕ} (hn : n < 2 ^ 64) : BitVec.ofNat 64 n = 0 ↔ n = 0 := by
  rw [← BitVec.toNat_inj, BitVec.toNat_ofNat, Nat.mod_eq_of_lt hn]
  rfl

theorem isLeap_ofNat {year : ℕ} (h : year < 2 ^ 63) :
    isLeap (BitVec.ofNat 64 year) = leapYear year := by
  have hrem (k : ℕ) (hk : k < 2 ^ 63) :
      (BitVec.ofNat 64 year).srem (BitVec.ofNat 64 k) = 0 ↔ year % k = 0 := by
    rw [srem_ofNat h hk]
    exact ofNat_eq_zero_iff ((Nat.mod_le year k).trans_lt (by omega))
  rw [Bool.eq_iff_iff, isLeap, leapYear, decide_eq_true_iff, Bool.and_eq_true, Bool.or_eq_true,
    beq_iff_eq, bne_iff_ne, beq_iff_eq]
  exact and_congr (hrem 4 (by norm_num)) (or_congr (not_congr (hrem 100 (by norm_num)))
    (hrem 400 (by norm_num)))

theorem toNat_totalDays {i : ℕ} (h : 1970 + i < 2 ^ 63) :
    (totalDays (BitVec.ofNat 64 (1970 + i))).toNat = yearLengths i := by
  rw [totalDays, isLeap_ofNat h, yearLengths, daysInYear]
  split_ifs <;> rfl

/-- The loop over the years finds the one that the day lies in. -/
theorem gmtimeYears_eq {n m d r : ℕ} (hpos : start yearLengths n + d = start yearLengths m + r)
    (hr : r < yearLengths m) (hd : d < 2 ^ 64) (hm : 1970 + m < 2 ^ 63) (hnm : n ≤ m) :
    gmtimeYears (BitVec.ofNat 64 d) (BitVec.ofNat 64 (1970 + n)) (BitVec.ofNat 64 n) =
      (BitVec.ofNat 64 r, BitVec.ofNat 64 (1970 + m), BitVec.ofNat 64 m) := by
  obtain ⟨k, rfl⟩ := Nat.exists_eq_add_of_le hnm
  induction k generalizing n d with
  | zero =>
    obtain rfl : d = r := Nat.add_left_cancel hpos
    have hn : 1970 + n < 2 ^ 63 := hm
    rw [gmtimeYears]
    have hstop : ¬totalDays (BitVec.ofNat 64 (1970 + n)) ≤ BitVec.ofNat 64 d := by
      rw [BitVec.le_def, toNat_totalDays hn, BitVec.toNat_ofNat, Nat.mod_eq_of_lt hd]
      exact not_le.mpr hr
    rw [if_neg hstop, ite_self]
    rfl
  | succ k ih =>
    have hindex : n + (k + 1) = n + 1 + k := by omega
    rw [hindex] at hpos hr hm ⊢
    have hn : 1970 + n < 2 ^ 63 := by omega
    have hend : start yearLengths n + yearLengths n ≤ start yearLengths (n + 1 + k) :=
      end_le_start (by omega)
    have hyear : 0 < yearLengths n := daysInYear_pos _
    have hgo : totalDays (BitVec.ofNat 64 (1970 + n)) ≤ BitVec.ofNat 64 d := by
      rw [BitVec.le_def, toNat_totalDays hn, BitVec.toNat_ofNat, Nat.mod_eq_of_lt hd]
      omega
    have hpositive : 0 < BitVec.ofNat 64 d := by
      rw [BitVec.lt_def, BitVec.toNat_ofNat, Nat.mod_eq_of_lt hd]
      change 0 < d
      omega
    have hleft : BitVec.ofNat 64 d - totalDays (BitVec.ofNat 64 (1970 + n)) =
        BitVec.ofNat 64 (d - yearLengths n) := by
      apply BitVec.eq_of_toNat_eq
      rw [BitVec.toNat_sub_of_le hgo, toNat_totalDays hn, BitVec.toNat_ofNat, BitVec.toNat_ofNat,
        Nat.mod_eq_of_lt hd, Nat.mod_eq_of_lt (by omega)]
    have hnext : start yearLengths (n + 1) + (d - yearLengths n) =
        start yearLengths (n + 1 + k) + r := by
      have hstart : start yearLengths (n + 1) = start yearLengths n + yearLengths n := rfl
      omega
    have hsucc (i : ℕ) : BitVec.ofNat 64 i + 1 = BitVec.ofNat 64 (i + 1) :=
      (BitVec.ofNat_add ..).symm
    rw [gmtimeYears, if_pos hpositive, if_pos hgo, hleft, hsucc, hsucc]
    exact ih (by omega) hnext hr hm (by omega)

theorem getD_cumulativeDays (year : ℕ) {m : ℕ} (hm : m ≤ 12) :
    (cumulativeDays (leapYear year)).getD (m + 1) 0 =
      BitVec.ofNat 64 (start (monthLengths year) m) := by
  rw [monthLengths_eq]
  interval_cases m <;> cases leapYear year <;> rfl

/-- The loop over the months finds the one that the day lies in. -/
theorem gmtimeMonths_eq (year : ℕ) {m r k : ℕ} (hr : r < monthLengths year m) (hk : k < 12)
    (hmk : m ≤ k) :
    gmtimeMonths (leapYear year) (BitVec.ofNat 64 (start (monthLengths year) m + r)) (k + 1) =
      (m + 1, BitVec.ofNat 64 r) := by
  have hbound (i : ℕ) (hi : i ≤ 12) : start (monthLengths year) i ≤ 366 := by
    have hle := @start_le_start (monthLengths year) i 12 hi
    rw [start_monthLengths_year] at hle
    exact hle.trans (daysInYear_le year)
  have hend := @end_le_start (monthLengths year) m 12 (by omega)
  have hlast := hbound 12 le_rfl
  induction k with
  | zero =>
    obtain rfl : m = 0 := by omega
    rw [start, Nat.zero_add]
    rfl
  | succ k ih =>
    have hdays : (cumulativeDays (leapYear year)).getD (k + 2) 0 =
        BitVec.ofNat 64 (start (monthLengths year) (k + 1)) :=
      getD_cumulativeDays year (by omega)
    have hstart := hbound (k + 1) (by omega)
    rw [gmtimeMonths, hdays]
    rcases Nat.eq_or_lt_of_le hmk with rfl | hlt
    · have hle : BitVec.ofNat 64 (start (monthLengths year) (k + 1)) ≤
          BitVec.ofNat 64 (start (monthLengths year) (k + 1) + r) := by
        rw [BitVec.le_def, toNat_ofNat (by omega), toNat_ofNat (by omega)]
        exact Nat.le_add_right _ _
      rw [if_pos hle]
      congr 1
      apply BitVec.eq_of_toNat_eq
      rw [BitVec.toNat_sub_of_le hle, toNat_ofNat (by omega), toNat_ofNat (by omega),
        toNat_ofNat (by omega), Nat.add_sub_cancel_left]
    · have hnext := @end_le_start (monthLengths year) m (k + 1) (by omega)
      have hgt : ¬BitVec.ofNat 64 (start (monthLengths year) (k + 1)) ≤
          BitVec.ofNat 64 (start (monthLengths year) m + r) := by
        rw [BitVec.le_def, toNat_ofNat (by omega), toNat_ofNat (by omega)]
        omega
      rw [if_neg hgt]
      exact ih (by omega) (by omega)

theorem setWidth_ofNat (n : ℕ) : (BitVec.ofNat 64 n).setWidth 32 = BitVec.ofNat 32 n :=
  BitVec.setWidth_ofNat_of_le (by norm_num) n

/-- The fields that do not depend on the day. -/
theorem gmtime_ofDay (c : CivilTime) :
    ((BitVec.ofNat 64 c.secondsOfDay).srem secsPerMin).setWidth 32 = BitVec.ofNat 32 c.second ∧
      (((BitVec.ofNat 64 c.secondsOfDay).srem secsPerHour).sdiv secsPerMin).setWidth 32 =
        BitVec.ofNat 32 c.minute ∧
      ((BitVec.ofNat 64 c.secondsOfDay).sdiv secsPerHour).setWidth 32 = BitVec.ofNat 32 c.hour := by
  have hday := c.secondsOfDay_lt
  have hsecond := c.second_lt
  have hminute := c.minute_lt
  have hdef : c.secondsOfDay = c.hour * 3600 + c.minute * 60 + c.second := rfl
  have hsec := @srem_ofNat c.secondsOfDay 60 (by omega) (by norm_num)
  have hhourRest := @srem_ofNat c.secondsOfDay 3600 (by omega) (by norm_num)
  have hmin := @sdiv_ofNat (c.secondsOfDay % 3600) 60 (by omega) (by norm_num)
  have hhour := @sdiv_ofNat c.secondsOfDay 3600 (by omega) (by norm_num)
  rw [show c.secondsOfDay % 60 = c.second by omega] at hsec
  rw [show c.secondsOfDay % 3600 / 60 = c.minute by omega, ← hhourRest] at hmin
  rw [show c.secondsOfDay / 3600 = c.hour by omega] at hhour
  refine ⟨?_, ?_, ?_⟩
  · exact (congrArg (BitVec.setWidth 32) hsec).trans (setWidth_ofNat _)
  · exact (congrArg (BitVec.setWidth 32) hmin).trans (setWidth_ofNat _)
  · exact (congrArg (BitVec.setWidth 32) hhour).trans (setWidth_ofNat _)

/-- `gmtime` gives the time of the calendar. -/
theorem gmtime_eq {c : CivilTime} (h : c.seconds < 2 ^ 63) :
    gmtime (some (BitVec.ofNat 64 c.seconds)) true = some (tmOf c) := by
  have hdayLt := c.secondsOfDay_lt
  have hdays : c.seconds / 86400 = c.days := by
    unfold CivilTime.seconds
    omega
  have hrest : c.seconds % 86400 = c.secondsOfDay := by
    unfold CivilTime.seconds
    omega
  have hdaysLe : c.days * 86400 ≤ c.seconds := Nat.le_add_right _ _
  have hyearsLe : (c.year - 1970) * 365 ≤ c.days := by
    have hmul := @mul_le_start yearLengths 365 (fun i => by
      unfold yearLengths daysInYear
      split_ifs <;> norm_num) (c.year - 1970)
    exact hmul.trans (Nat.le_add_right _ _)
  have hyear := c.year_ge
  have hmonth := c.month_ge
  have hmonthLe := c.month_le
  have hsdiv : (BitVec.ofNat 64 c.seconds).sdiv secsPerDay = BitVec.ofNat 64 c.days := by
    rw [← hdays]
    exact @sdiv_ofNat c.seconds 86400 h (by norm_num)
  have hsrem : (BitVec.ofNat 64 c.seconds).srem secsPerDay = BitVec.ofNat 64 c.secondsOfDay := by
    rw [← hrest]
    exact @srem_ofNat c.seconds 86400 h (by norm_num)
  have hyears : gmtimeYears (BitVec.ofNat 64 c.days) 1970 0 = (BitVec.ofNat 64 c.dayOfYear,
      BitVec.ofNat 64 (1970 + (c.year - 1970)), BitVec.ofNat 64 (c.year - 1970)) :=
    @gmtimeYears_eq 0 _ _ _ (Nat.zero_add _) c.dayOfYear_lt_yearLengths (by omega) (by omega)
      (Nat.zero_le _)
  rw [Nat.add_sub_cancel' hyear] at hyears
  have hmonths := gmtimeMonths_eq c.year c.day_lt (by norm_num : 11 < 12) (by omega)
  rw [Nat.sub_add_cancel hmonth] at hmonths
  obtain ⟨hsec, hmin, hhour⟩ := gmtime_ofDay c
  have hmday : (BitVec.ofNat 64 (c.day - 1)).setWidth 32 + 1 = BitVec.ofNat 32 c.day := by
    rw [setWidth_ofNat, ← Nat.sub_add_cancel c.day_ge, BitVec.ofNat_add, Nat.add_sub_cancel]
    rfl
  have hmon : BitVec.ofNat 32 c.month - 1 = BitVec.ofNat 32 (c.month - 1) := by
    rw [← Nat.sub_add_cancel hmonth, BitVec.ofNat_add, Nat.add_sub_cancel]
    exact BitVec.add_sub_cancel _ _
  have hyearField : (BitVec.ofNat 64 (c.year - 1970) + (1970 - 1900)).setWidth 32 =
      BitVec.ofNat 32 (c.year - 1900) := by
    rw [show c.year - 1900 = c.year - 1970 + 70 by omega, ← setWidth_ofNat, BitVec.ofNat_add]
    rfl
  have hwday : ((BitVec.ofNat 64 c.days + 4).srem 7).setWidth 32 = BitVec.ofNat 32 c.weekday := by
    have hsum : BitVec.ofNat 64 c.days + 4 = BitVec.ofNat 64 (c.days + 4) :=
      (BitVec.ofNat_add ..).symm
    have hmod := @srem_ofNat (c.days + 4) 7 (by omega) (by norm_num)
    rw [hsum, CivilTime.weekday, ← setWidth_ofNat]
    exact congrArg (BitVec.setWidth 32) hmod
  rw [gmtime, if_pos rfl, hsdiv, hsrem]
  dsimp only
  rw [hyears]
  dsimp only
  rw [isLeap_ofNat (by omega), show c.dayOfYear =
    start (monthLengths c.year) (c.month - 1) + (c.day - 1) from rfl, hmonths]
  dsimp only
  rw [hsec, hmin, hhour, hmday, hmon, hyearField, hwday, setWidth_ofNat]
  rfl

/-- The loop over the years adds up their seconds. -/
theorem addYears_eq {k n : ℕ} (h : 1970 + (k + n) < 2 ^ 63) :
    addYears n (BitVec.ofNat 64 (1970 + k)) (BitVec.ofNat 64 (start yearLengths k * 86400)) =
      BitVec.ofNat 64 (start yearLengths (k + n) * 86400) := by
  induction n generalizing k with
  | zero => rfl
  | succ n ih =>
    have hdays : (cumulativeDays (isLeap (BitVec.ofNat 64 (1970 + k)))).getD 13 0 =
        BitVec.ofNat 64 (yearLengths k) := by
      rw [isLeap_ofNat (by omega), getD_cumulativeDays _ le_rfl, start_monthLengths_year]
    have hnext : BitVec.ofNat 64 (start yearLengths k * 86400) +
        BitVec.ofNat 64 (yearLengths k) * secsPerDay =
          BitVec.ofNat 64 (start yearLengths (k + 1) * 86400) := by
      have hsecs : secsPerDay = BitVec.ofNat 64 86400 := rfl
      rw [hsecs, start, Nat.add_mul, BitVec.ofNat_add, BitVec.ofNat_mul (yearLengths k)]
    have hyear : BitVec.ofNat 64 (1970 + k) + 1 = BitVec.ofNat 64 (1970 + (k + 1)) :=
      (BitVec.ofNat_add ..).symm
    rw [addYears, hdays, hnext, hyear, show k + (n + 1) = k + 1 + n by omega]
    exact ih (by omega)

theorem yearPasses_eq {time : EfiTime} (h : 1970 ≤ time.year.toNat) :
    yearPasses time = time.year.toNat - 1970 := by
  have hyear := time.year.isLt
  rw [yearPasses, BitVec.toNat_sub_of_le]
  · rw [BitVec.toNat_setWidth, Nat.mod_eq_of_lt (by omega)]
    rfl
  · rw [BitVec.le_def, BitVec.toNat_setWidth, Nat.mod_eq_of_lt (by omega)]
    exact h

theorem setWidth_eq {w : ℕ} {x : BitVec w} {n : ℕ} (h : x.toNat = n) :
    x.setWidth 64 = BitVec.ofNat 64 n := by
  apply BitVec.eq_of_toNat_eq
  rw [BitVec.toNat_setWidth, BitVec.toNat_ofNat, h]

theorem zoneSeconds_eq (time : EfiTime) :
    (if time.timeZone ≠ efiUnspecifiedTimezone then time.timeZone.signExtend 64 * 60
      else 0 : BitVec 64) = BitVec.ofInt 64 (zoneMinutes time * 60) := by
  rw [zoneMinutes]
  by_cases h : time.timeZone = efiUnspecifiedTimezone
  · rw [if_pos h, if_neg (not_not.mpr h)]
    rfl
  · rw [if_neg h, if_pos h, BitVec.ofInt_mul]
    rfl

/-- The days in front of a day, where the first two of a month have the same. -/
def daysBefore (time : EfiTime) : ℕ :=
  start yearLengths (time.year.toNat - 1970) +
    start (monthLengths time.year.toNat) (time.month.toNat - 1) + (time.day.toNat - 1)

def secondsOf (time : EfiTime) : ℕ :=
  daysBefore time * 86400 + time.hour.toNat * 3600 + time.minute.toNat * 60 + time.second.toNat

/-- The day may be any number. -/
theorem calculateTimeT_eq {time : EfiTime} (hyear : 1970 ≤ time.year.toNat)
    (hmonth : 1 ≤ time.month.toNat) (hmonthLe : time.month.toNat ≤ 12) :
    calculateTimeT time = some (BitVec.ofInt 64 (secondsOf time + zoneMinutes time * 60)) := by
  have hyearLt := time.year.isLt
  have hleap : isLeap (time.year.setWidth 64) = leapYear time.year.toNat := by
    rw [setWidth_eq rfl, isLeap_ofNat (by omega)]
  have hyears : addYears (yearPasses time) 1970 0 =
      BitVec.ofNat 64 (start yearLengths (time.year.toNat - 1970) * 86400) := by
    have hadd := @addYears_eq 0 (time.year.toNat - 1970) (by omega)
    rw [Nat.zero_add] at hadd
    rw [yearPasses_eq hyear]
    exact hadd
  have hdays : (cumulativeDays (leapYear time.year.toNat))[time.month.toNat]? =
      some (BitVec.ofNat 64 (start (monthLengths time.year.toNat) (time.month.toNat - 1))) := by
    have hget := getD_cumulativeDays time.year.toNat (show time.month.toNat - 1 ≤ 12 by omega)
    rw [Nat.sub_add_cancel hmonth] at hget
    have hlen : time.month.toNat < (cumulativeDays (leapYear time.year.toNat)).length := by
      cases leapYear time.year.toNat <;> exact Nat.lt_of_le_of_lt hmonthLe (by decide)
    rw [← hget, List.getD_eq_getElem?_getD, List.getElem?_eq_getElem hlen]
    rfl
  have hdayField : (if 0 < time.day then time.day.setWidth 64 - 1 else 0 : BitVec 64) =
      BitVec.ofNat 64 (time.day.toNat - 1) := by
    by_cases hpos : 0 < time.day
    · have hpos' : 0 < time.day.toNat := BitVec.lt_def.mp hpos
      rw [if_pos hpos, setWidth_eq rfl, ← Nat.sub_add_cancel hpos', BitVec.ofNat_add,
        Nat.add_sub_cancel]
      exact BitVec.add_sub_cancel _ _
    · have hzero : time.day.toNat = 0 := by
        rw [BitVec.lt_def] at hpos
        exact Nat.eq_zero_of_not_pos hpos
      rw [if_neg hpos, hzero]
      rfl
  have hsum : (secondsOf time + zoneMinutes time * 60 : ℤ) =
      ((start yearLengths (time.year.toNat - 1970) * 86400 : ℕ) : ℤ) + zoneMinutes time * 60 +
        (start (monthLengths time.year.toNat) (time.month.toNat - 1) : ℕ) * 86400 +
          ((time.day.toNat - 1 : ℕ) : ℤ) * 86400 +
            time.hour.toNat * 3600 + time.minute.toNat * 60 + time.second.toNat := by
    unfold secondsOf daysBefore
    push_cast
    ring
  have hsecsPerDay : secsPerDay = BitVec.ofInt 64 86400 := rfl
  have hsecsPerHour : secsPerHour = BitVec.ofInt 64 3600 := rfl
  have hsixty : (60 : BitVec 64) = BitVec.ofInt 64 60 := rfl
  rw [calculateTimeT, hleap, hdays, hyears, zoneSeconds_eq, hdayField, @setWidth_eq 8 time.hour _ rfl,
    @setWidth_eq 8 time.minute _ rfl, @setWidth_eq 8 time.second _ rfl, Option.map_some, hsum,
    hsecsPerDay, hsecsPerHour, hsixty]
  simp only [BitVec.ofInt_add, BitVec.ofInt_mul, BitVec.ofInt_natCast]

theorem secondsOf_eq {time : EfiTime} {c : CivilTime} (h : Shows time c) :
    secondsOf time = c.seconds := by
  unfold secondsOf daysBefore CivilTime.seconds CivilTime.days CivilTime.dayOfYear
    CivilTime.secondsOfDay
  rw [h.year, h.month, h.day, h.hour, h.minute, h.second]
  ring

theorem seconds_lt {c : CivilTime} {n : ℕ} (h : c.year ≤ 1970 + n) :
    c.seconds < (n + 1) * (366 * 86400) := by
  have hstart := @start_le_mul yearLengths 366 (fun i => daysInYear_le _) (c.year - 1970)
  have hday := c.dayOfYear_lt.trans_le (daysInYear_le c.year)
  have hseconds := c.secondsOfDay_lt
  have hyear := c.year_ge
  have hn : (c.year - 1970) * 366 ≤ n * 366 := Nat.mul_le_mul_right _ (by omega)
  unfold CivilTime.seconds CivilTime.days
  omega

theorem toInt_ofNat_iff (n : ℕ) : (BitVec.ofNat 32 n).toInt = n ↔ n < 2 ^ 31 := by
  constructor
  · intro h
    have hlt := (BitVec.ofNat 32 n).toInt_lt
    omega
  · intro h
    rw [BitVec.toInt_ofNat']
    exact Int.bmod_eq_of_le (by omega) (by omega)

/-- A field of 32 bits is enough for every year but those that are very far away. -/
theorem tmOf_tells_iff (c : CivilTime) : (tmOf c).Tells c ↔ c.year < 1900 + 2 ^ 31 := by
  have hyear := c.year_ge
  have hyearCast : ((c.year - 1900 : ℕ) : ℤ) = c.year - 1900 := by omega
  constructor
  · intro h
    have hfits := (toInt_ofNat_iff (c.year - 1900)).mp (h.year.trans hyearCast.symm)
    omega
  · intro h
    have hmonth := c.month_ge
    have hmonthLe := c.month_le
    have hmonthCast : ((c.month - 1 : ℕ) : ℤ) = c.month - 1 := by omega
    have hhour := c.hour_lt
    have hminute := c.minute_lt
    have hsecond := c.second_lt
    have hday := c.dayOfYear_lt.trans_le (daysInYear_le c.year)
    have hmday : c.day ≤ 31 := c.day_le.trans (by unfold daysInMonth; split_ifs <;> norm_num)
    have hwday : c.weekday < 7 := Nat.mod_lt _ (by norm_num)
    have hfield (n : ℕ) (hn : n < 2 ^ 31) := (toInt_ofNat_iff n).mpr hn
    exact ⟨hfield _ (by omega), hfield _ (by omega), hfield _ (by omega), hfield _ (by omega),
      (hfield _ (by omega)).trans hmonthCast, (hfield _ (by omega)).trans hyearCast,
      hfield _ (by omega), hfield _ (by omega)⟩

/-- Seconds and fields of the calendar are two forms of the same times: `gmtime` gives every number
of seconds from 1970 on the fields of the one time that is so many seconds after its start, as long
as its year fits into the field, and `calculateTimeT` gives the fields of a time its seconds in
universal time. -/
theorem gmtime_calculateTimeT :
    (∀ t : BitVec 64, t.msb = false →
      ∃! c : CivilTime, c.seconds = t.toNat ∧ gmtime (some t) true = some (tmOf c) ∧
        ((tmOf c).Tells c ↔ c.year < 1900 + 2 ^ 31)) ∧
    ∀ time c, Shows time c → ∃ t, calculateTimeT time = some t ∧
      t.toInt = c.seconds + zoneMinutes time * 60 ∧
      (zoneMinutes time = 0 → gmtime (some t) true = some (tmOf c) ∧ (tmOf c).Tells c) := by
  constructor
  · intro t ht
    obtain ⟨c, hc⟩ := CivilTime.exists_seconds t.toNat
    refine ⟨c, ⟨hc, ?_, tmOf_tells_iff c⟩,
      fun d hd => CivilTime.seconds_injective (hd.1.trans hc.symm)⟩
    have hlt := BitVec.msb_eq_false_iff_two_mul_lt.mp ht
    have hgmtime := @gmtime_eq c (by omega)
    rwa [hc, BitVec.ofNat_toNat, BitVec.setWidth_eq] at hgmtime
  · intro time c h
    have hyear := c.year_ge
    have hyearLt : c.year < 2 ^ 16 := h.year ▸ time.year.isLt
    have hseconds := @seconds_lt c 65535 (by omega)
    have hcalculate := calculateTimeT_eq (h.year ▸ hyear) (h.month ▸ c.month_ge)
      (h.month ▸ c.month_le)
    rw [secondsOf_eq h] at hcalculate
    refine ⟨_, hcalculate, ?_, fun hzone => ?_⟩
    · have hzone : -32768 ≤ zoneMinutes time ∧ zoneMinutes time < 32768 := by
        unfold zoneMinutes
        split_ifs
        · omega
        · have hlow := time.timeZone.le_toInt
          have hhigh := time.timeZone.toInt_lt
          omega
      rw [BitVec.toInt_ofInt]
      apply Int.bmod_eq_of_le
      · omega
      · omega
    · rw [hzone, Int.zero_mul, Int.add_zero, BitVec.ofInt_natCast]
      exact ⟨gmtime_eq (by omega), (tmOf_tells_iff c).mpr (by omega)⟩

/-- The seconds of the first of January 2019. -/
def dummyStart : ℕ := 1546300800

/-- What the clock shows after an uptime: the first two days are the same. -/
def shownSeconds (uptime : ℕ) : ℕ := if uptime < 86400 then uptime else uptime - 86400

theorem secondsOf_dummyTime (elapsedSeconds : BitVec 64) (old : EfiTime) :
    secondsOf (dummyTime elapsedSeconds old) =
      dummyStart + shownSeconds (elapsedSeconds.toNat % (256 * 86400)) := by
  have hstart : start yearLengths (2019 - 1970) + start (monthLengths 2019) (1 - 1) = 17897 := rfl
  have hbefore : daysBefore (dummyTime elapsedSeconds old) =
      17897 + ((dummyTime elapsedSeconds old).day.toNat - 1) := by
    have hyear : (dummyTime elapsedSeconds old).year.toNat = 2019 := rfl
    have hmonth : (dummyTime elapsedSeconds old).month.toNat = 1 := rfl
    rw [daysBefore, hyear, hmonth, hstart]
  rw [secondsOf, hbefore]
  simp only [dummyTime, BitVec.toNat_setWidth, BitVec.toNat_udiv, BitVec.toNat_umod,
    toNat_secondsPerDay, toNat_secondsPerHour, toNat_secondsPerMinute]
  unfold dummyStart shownSeconds
  split_ifs with hfirst <;> omega

theorem time_eq {timerFreq : BitVec 64} (hfreq : timerFreq.setWidth 32 ≠ (0 : BitVec 32))
    (stack : EfiTime) (counter : BitVec 64) (timer : Option (BitVec 64)) :
    let clock := BitVec.ofNat 64
      (dummyStart + shownSeconds (uptimeInPeriod timerFreq counter))
    time stack timerFreq counter timer = some (clock, timer.map fun _ => clock) := by
  intro clock
  have hseconds := secondsOf_dummyTime (counter / (timerFreq.setWidth 32 : BitVec 32).setWidth 64)
    stack
  rw [toNat_elapsedSeconds] at hseconds
  set dummy := dummyTime (counter / (timerFreq.setWidth 32 : BitVec 32).setWidth 64) stack with
    hdummy
  have hyear : dummy.year = 2019 := rfl
  have hmonth : dummy.month.toNat = 1 := rfl
  have hzone : zoneMinutes dummy = 0 := by
    have hutc : dummy.timeZone = 0 := rfl
    rw [zoneMinutes, hutc]
    decide
  have hcalculate := @calculateTimeT_eq dummy (by rw [hyear]; decide) hmonth.ge
    (hmonth.trans_le (by norm_num))
  rw [hzone, hseconds, Int.zero_mul, Int.add_zero, BitVec.ofInt_natCast] at hcalculate
  have hnotEarly : ¬dummy.year < 1970 := by
    rw [hyear]
    decide
  rw [time, libGetTime_eq hfreq, Option.bind_some]
  dsimp only
  rw [if_neg hnotEarly, hcalculate]
  rfl

/-- With the clock of the fallback library `time` counts the seconds since power on from the start
of 2019, but has the first day twice. From one reading to a later one of a period it goes back
exactly if the first is of the first day and the other of the second one, before the same time of
the day. -/
theorem time_dummyClock {timerFreq : BitVec 64} (hfreq : timerFreq.setWidth 32 ≠ (0 : BitVec 32))
    (stack : EfiTime) (timer : Option (BitVec 64)) :
    ∃ clock : BitVec 64 → BitVec 64, ∀ counter,
      let uptime := uptimeInPeriod timerFreq counter
      time stack timerFreq counter timer =
        some (clock counter, timer.map fun _ => clock counter) ∧
      (clock counter).toNat = dummyStart + shownSeconds uptime ∧
      (∃ c : CivilTime, c.year = 2019 ∧ c.seconds = dummyStart + shownSeconds uptime ∧
        gmtime (some (clock counter)) true = some (tmOf c)) ∧
      ∀ counter', uptime ≤ uptimeInPeriod timerFreq counter' →
        (clock counter' < clock counter ↔
          uptime < 86400 ∧ 86400 ≤ uptimeInPeriod timerFreq counter' ∧
            uptimeInPeriod timerFreq counter' < uptime + 86400) := by
  have hperiod (counter : BitVec 64) : uptimeInPeriod timerFreq counter < 256 * 86400 :=
    Nat.mod_lt _ (by norm_num)
  have hshown (u : ℕ) (hu : u < 256 * 86400) : shownSeconds u < 255 * 86400 := by
    unfold shownSeconds
    split_ifs <;> omega
  refine ⟨fun counter => BitVec.ofNat 64
    (dummyStart + shownSeconds (uptimeInPeriod timerFreq counter)), fun counter => ?_⟩
  have hlt := hshown _ (hperiod counter)
  refine ⟨time_eq hfreq stack counter timer, toNat_ofNat (by unfold dummyStart; omega), ?_,
    fun counter' hle => ?_⟩
  · obtain ⟨c, hc⟩ := CivilTime.exists_seconds
      (dummyStart + shownSeconds (uptimeInPeriod timerFreq counter))
    refine ⟨c, ?_, hc, ?_⟩
    · have hday := c.secondsOfDay_lt
      have hstart : start yearLengths 49 = 17897 := rfl
      have hyear : yearLengths 49 = 365 := rfl
      have hdays : c.days = 17897 + (c.days - 17897) ∧ c.days - 17897 < 365 := by
        unfold CivilTime.seconds dummyStart at hc
        omega
      have hunique := @unique yearLengths (c.year - 1970) 49 c.dayOfYear (c.days - 17897)
        c.dayOfYear_lt_yearLengths (hyear ▸ hdays.2) (hstart ▸ hdays.1)
      have hge := c.year_ge
      omega
    · have hgmtime := @gmtime_eq c (by unfold dummyStart at hc; omega)
      rwa [hc] at hgmtime
  · have hlt' := hshown _ (hperiod counter')
    rw [BitVec.lt_def, toNat_ofNat (by unfold dummyStart; omega),
      toNat_ofNat (by unfold dummyStart; omega), Nat.add_lt_add_iff_left]
    unfold shownSeconds
    split_ifs <;> omega

theorem time_dummyClock_counting :
    ∃ clock : BitVec 64 → BitVec 64, ∀ counter,
      let uptime := uptimeInPeriod 19200000 counter
      time zeroTime 19200000 counter none = some (clock counter, none) ∧
      (clock counter).toNat = dummyStart + shownSeconds uptime ∧
      (∃ c : CivilTime, c.year = 2019 ∧ c.seconds = dummyStart + shownSeconds uptime ∧
        gmtime (some (clock counter)) true = some (tmOf c)) ∧
      ∀ counter', uptime ≤ uptimeInPeriod 19200000 counter' →
        (clock counter' < clock counter ↔
          uptime < 86400 ∧ 86400 ≤ uptimeInPeriod 19200000 counter' ∧
            uptimeInPeriod 19200000 counter' < uptime + 86400) :=
  time_dummyClock (by decide) zeroTime none

/-- `mktime` takes the years since 1900 for the year. What `gmtime` gives for any time before 3870
makes the loop over the years go through nearly all numbers of 64 bits. -/
theorem mktime_gmtime {t : BitVec 64} (h : t.toNat < start yearLengths 1900 * 86400)
    (stack : EfiTime) :
    ∃ tm, gmtime (some t) true = some tm ∧ 2 ^ 64 - 1970 ≤ yearPasses (mktimeTime tm stack) := by
  obtain ⟨c, hc⟩ := CivilTime.exists_seconds t.toNat
  have hstart := @start_le_mul yearLengths 366 (fun i => daysInYear_le _) 1900
  have hgmtime := @gmtime_eq c (by omega)
  rw [hc, BitVec.ofNat_toNat, BitVec.setWidth_eq] at hgmtime
  refine ⟨_, hgmtime, ?_⟩
  have hyear : c.year < 3870 := by
    by_contra hge
    have hle := @start_le_start yearLengths 1900 (c.year - 1970) (by omega)
    unfold CivilTime.seconds CivilTime.days at hc
    omega
  have hge := c.year_ge
  have hfield : (mktimeTime (tmOf c) stack).year.toNat = c.year - 1900 := by
    change ((BitVec.ofNat 32 (c.year - 1900)).setWidth 16).toNat = _
    rw [BitVec.toNat_setWidth, BitVec.toNat_ofNat]
    omega
  rw [yearPasses, BitVec.toNat_sub, BitVec.toNat_setWidth, hfield]
  change _ ≤ (2 ^ 64 - 1970 + (c.year - 1900) % 2 ^ 64) % 2 ^ 64
  omega

theorem mktime_gmtime_epoch :
    ∃ tm, gmtime (some 0) true = some tm ∧ 2 ^ 64 - 1970 ≤ yearPasses (mktimeTime tm zeroTime) := by
  have hlong := @mul_le_start yearLengths 1 (fun i => daysInYear_pos _) 1900
  exact mktime_gmtime (by change 0 < _; omega) zeroTime

end ProjectMu.TimerWrapper
