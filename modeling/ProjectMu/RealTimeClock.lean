import ProjectMu.GptFormat
import ProjectMu.MixedRadix

/-!
# The clock of the fallback library

`libGetTime` splits the seconds since power on into a day, an hour, a minute and a second of
January 2019. The day counts from zero and is stored in eight bits, so the times are those of a
calendar from the second to the thirty-second day only, and go back after 256 days.
-/

namespace ProjectMu

open MixedRadix

structure EfiTime where
  year : BitVec 16
  month : BitVec 8
  day : BitVec 8
  hour : BitVec 8
  minute : BitVec 8
  second : BitVec 8
  pad1 : BitVec 8
  nanosecond : BitVec 32
  timeZone : BitVec 16
  daylight : BitVec 8
  pad2 : BitVec 8
  deriving DecidableEq, Repr

structure EfiTimeCapabilities where
  resolution : BitVec 32
  accuracy : BitVec 32
  setsToZero : Bool
  deriving DecidableEq, Repr

/-- The status and what the two pointers point to after the call. -/
structure GetTimeAnswer where
  status : Except EfiError Unit
  time : Option EfiTime
  capabilities : Option EfiTimeCapabilities

def secondsPerDay : BitVec 64 := 24 * 60 * 60
def secondsPerHour : BitVec 64 := 60 * 60
def secondsPerMinute : BitVec 64 := 60

/-- The pointers may be `NULL`. There is no answer if the assertion on the frequency fails. -/
def libGetTime (time : Option EfiTime) (capabilities : Option EfiTimeCapabilities)
    (timerFreq performanceCounter : BitVec 64) : Option GetTimeAnswer :=
  match time with
  | none => some ⟨.error .invalidParameter, none, capabilities⟩
  | some time =>
    let freq : BitVec 32 := timerFreq.setWidth 32
    if freq = 0 then none
    else
      let elapsedSeconds := performanceCounter / freq.setWidth 64
      let day := (elapsedSeconds / secondsPerDay).setWidth 8
      let elapsedSeconds := elapsedSeconds % secondsPerDay
      let hour := (elapsedSeconds / secondsPerHour).setWidth 8
      let elapsedSeconds := elapsedSeconds % secondsPerHour
      let minute := (elapsedSeconds / secondsPerMinute).setWidth 8
      let elapsedSeconds := elapsedSeconds % secondsPerMinute
      some {
        status := .ok ()
        time := some { time with
          year := 2019
          month := 1
          day, hour, minute
          second := elapsedSeconds.setWidth 8
          nanosecond := 0
          timeZone := 0
          daylight := 0 }
        capabilities := capabilities.map fun _ => ⟨freq, 0, false⟩ }

def daysInMonth (year month : ℕ) : ℕ :=
  if month = 2 then
    if year % 4 = 0 ∧ year % 100 ≠ 0 ∨ year % 400 = 0 then 29 else 28
  else if month ∈ [4, 6, 9, 11] then 30 else 31

namespace EfiTime

/-- The ranges that the firmware interface gives for the fields of a time. -/
structure Valid (time : EfiTime) : Prop where
  year : 1900 ≤ time.year.toNat ∧ time.year.toNat ≤ 9999
  month : 1 ≤ time.month.toNat ∧ time.month.toNat ≤ 12
  day : 1 ≤ time.day.toNat ∧
    time.day.toNat ≤ daysInMonth time.year.toNat time.month.toNat
  hour : time.hour.toNat < 24
  minute : time.minute.toNat < 60
  second : time.second.toNat < 60
  nanosecond : time.nanosecond.toNat < 10 ^ 9
  timeZone : -1440 ≤ time.timeZone.toInt ∧ time.timeZone.toInt ≤ 1440 ∨
    time.timeZone.toInt = 2047
  daylight : time.daylight &&& 0xFC = 0

def calendar (time : EfiTime) : List ℕ :=
  [time.year.toNat, time.month.toNat, time.day.toNat, time.hour.toNat, time.minute.toNat,
    time.second.toNat, time.nanosecond.toNat]

/-- The calendar order, for times of one time zone. -/
def IsEarlier (time time' : EfiTime) : Prop := time.calendar < time'.calendar

end EfiTime

/-- Both times are valid, and the later counter does not give the earlier time, whatever was
in memory before. -/
def ValidMonotone (timerFreq counter counter' : BitVec 64) : Prop :=
  ∀ old old' oldCapabilities oldCapabilities', ∃ time time' capabilities capabilities',
    libGetTime (some old) oldCapabilities timerFreq counter =
      some ⟨.ok (), some time, capabilities⟩ ∧
    libGetTime (some old') oldCapabilities' timerFreq counter' =
      some ⟨.ok (), some time', capabilities'⟩ ∧
    time.Valid ∧ time'.Valid ∧ (counter ≤ counter' → ¬time'.IsEarlier time)

/-- The seconds since power on without the whole periods of 256 days. The frequency has 32 bits. -/
def uptimeInPeriod (timerFreq counter : BitVec 64) : ℕ :=
  counter.toNat / (timerFreq.setWidth 32).toNat % (256 * 86400)

/-- The uptimes are from the second to the thirty-second day of a period, and in order there. -/
structure ClockHolds (timerFreq counter counter' : BitVec 64) : Prop where
  freq : timerFreq.setWidth 32 ≠ (0 : BitVec 32)
  first : 86400 ≤ uptimeInPeriod timerFreq counter ∧
    uptimeInPeriod timerFreq counter < 32 * 86400
  second : 86400 ≤ uptimeInPeriod timerFreq counter' ∧
    uptimeInPeriod timerFreq counter' < 32 * 86400
  order : counter ≤ counter' →
    uptimeInPeriod timerFreq counter ≤ uptimeInPeriod timerFreq counter'

variable {timerFreq counter counter' elapsedSeconds elapsedSeconds' : BitVec 64}
  {old old' : EfiTime} {capabilities : Option EfiTimeCapabilities}

/-- The time that is stored over an old one. -/
def dummyTime (elapsedSeconds : BitVec 64) (old : EfiTime) : EfiTime :=
  { old with
    year := 2019
    month := 1
    day := (elapsedSeconds / secondsPerDay).setWidth 8
    hour := (elapsedSeconds % secondsPerDay / secondsPerHour).setWidth 8
    minute := (elapsedSeconds % secondsPerDay % secondsPerHour / secondsPerMinute).setWidth 8
    second := (elapsedSeconds % secondsPerDay % secondsPerHour % secondsPerMinute).setWidth 8
    nanosecond := 0
    timeZone := 0
    daylight := 0 }

def zeroTime : EfiTime := ⟨0, 0, 0, 0, 0, 0, 0, 0, 0, 0, 0⟩

theorem libGetTime_eq (hfreq : timerFreq.setWidth 32 ≠ (0 : BitVec 32)) :
    libGetTime (some old) capabilities timerFreq counter =
      some ⟨.ok (), some (dummyTime (counter / (timerFreq.setWidth 32).setWidth 64) old),
        capabilities.map fun _ => ⟨timerFreq.setWidth 32, 0, false⟩⟩ :=
  if_neg hfreq

theorem libGetTime_eq_none (hfreq : timerFreq.setWidth 32 = (0 : BitVec 32)) :
    libGetTime (some old) capabilities timerFreq counter = none :=
  if_pos hfreq

theorem toNat_secondsPerDay : secondsPerDay.toNat = 86400 := rfl
theorem toNat_secondsPerHour : secondsPerHour.toNat = 3600 := rfl
theorem toNat_secondsPerMinute : secondsPerMinute.toNat = 60 := rfl

/-- The fields from the day on are the digits of the seconds, in a period of 256 days. -/
theorem calendar_dummyTime (elapsedSeconds : BitVec 64) (old : EfiTime) :
    (dummyTime elapsedSeconds old).calendar =
      2019 :: 1 :: (digits [24, 60, 60] (elapsedSeconds.toNat % (256 * 86400)) ++ [0]) := by
  have hdigits : digits [24, 60, 60] (elapsedSeconds.toNat % (256 * 86400)) =
      elapsedSeconds.toNat / 86400 % 256 :: elapsedSeconds.toNat % 86400 / 3600 ::
        elapsedSeconds.toNat % 86400 % 3600 / 60 ::
          [elapsedSeconds.toNat % 86400 % 3600 % 60] := digits_mod [24, 60, 60] 256 _
  rw [hdigits]
  simp only [EfiTime.calendar, dummyTime, BitVec.toNat_setWidth, BitVec.toNat_udiv,
    BitVec.toNat_umod, toNat_secondsPerDay, toNat_secondsPerHour, toNat_secondsPerMinute]
  generalize elapsedSeconds.toNat = elapsed
  have hhour : elapsed % 86400 / 3600 % 2 ^ 8 = elapsed % 86400 / 3600 :=
    Nat.mod_eq_of_lt (by omega)
  have hminute : elapsed % 86400 % 3600 / 60 % 2 ^ 8 = elapsed % 86400 % 3600 / 60 :=
    Nat.mod_eq_of_lt (by omega)
  have hsecond : elapsed % 86400 % 3600 % 60 % 2 ^ 8 = elapsed % 86400 % 3600 % 60 :=
    Nat.mod_eq_of_lt (by omega)
  rw [hhour, hminute, hsecond]
  rfl

/-- Times are in the order of the seconds of their periods. -/
theorem isEarlier_dummyTime :
    (dummyTime elapsedSeconds old).IsEarlier (dummyTime elapsedSeconds' old') ↔
      elapsedSeconds.toNat % (256 * 86400) < elapsedSeconds'.toNat % (256 * 86400) := by
  rw [EfiTime.IsEarlier, calendar_dummyTime, calendar_dummyTime, List.cons_lt_cons_self,
    List.cons_lt_cons_self, ← digits_append _ (by norm_num : 0 < 10 ^ 9),
    ← digits_append _ (by norm_num : 0 < 10 ^ 9), digits_lt_digits]
  exact Nat.mul_lt_mul_right (by norm_num)

/-- The day is the only field that can be out of its range. -/
theorem valid_dummyTime :
    (dummyTime elapsedSeconds old).Valid ↔
      86400 ≤ elapsedSeconds.toNat % (256 * 86400) ∧
        elapsedSeconds.toNat % (256 * 86400) < 32 * 86400 := by
  have hcalendar := calendar_dummyTime elapsedSeconds old
  generalize elapsedSeconds.toNat % (256 * 86400) = uptime at hcalendar ⊢
  have htail := @tail_digits_lt [24, 60, 60] (by decide) uptime
  rw [digits_eq_cons] at hcalendar
  generalize (digits [24, 60, 60] uptime).tail = tail at hcalendar htail
  obtain _ | ⟨hhour, _ | ⟨hminute, _ | ⟨hsecond, _ | _⟩⟩⟩ := htail
  simp only [EfiTime.calendar, List.cons_append, List.nil_append, List.cons.injEq] at hcalendar
  obtain ⟨hyear, hmonth, hday, hhour', hminute', hsecond', hnanosecond, -⟩ := hcalendar
  have hprod : [24, 60, 60].prod = 86400 := rfl
  rw [hprod] at hday
  have hdays : daysInMonth (dummyTime elapsedSeconds old).year.toNat
      (dummyTime elapsedSeconds old).month.toNat = 31 := by
    rw [hyear, hmonth]
    rfl
  constructor
  · intro h
    have hlow := h.day.1
    have hhigh := h.day.2
    rw [hdays] at hhigh
    omega
  · intro h
    have htimeZone : (dummyTime elapsedSeconds old).timeZone.toInt = 0 := rfl
    refine ⟨by omega, by omega, ⟨by omega, ?_⟩, hhour'.trans_lt hhour, hminute'.trans_lt hminute,
      hsecond'.trans_lt hsecond, by omega, .inl (by omega), BitVec.zero_and⟩
    rw [hdays]
    omega

/-- The seconds since power on, in their period. -/
theorem toNat_elapsedSeconds (timerFreq counter : BitVec 64) :
    (counter / (timerFreq.setWidth 32 : BitVec 32).setWidth 64).toNat % (256 * 86400) =
      uptimeInPeriod timerFreq counter := by
  rw [BitVec.toNat_udiv, BitVec.toNat_setWidth_of_le (by decide), uptimeInPeriod]

/-- Both readings are valid times in order exactly when the uptimes are those of the days that
the dummy month has. -/
theorem libGetTime_validMonotone_iff (timerFreq counter counter' : BitVec 64) :
    ValidMonotone timerFreq counter counter' ↔ ClockHolds timerFreq counter counter' := by
  have huptime := toNat_elapsedSeconds timerFreq counter
  have huptime' := toNat_elapsedSeconds timerFreq counter'
  constructor
  · intro h
    have hread := h zeroTime zeroTime none none
    by_cases hfreq : timerFreq.setWidth 32 = (0 : BitVec 32)
    · rw [libGetTime_eq_none hfreq] at hread
      obtain ⟨_, _, _, _, hnone, -⟩ := hread
      cases hnone
    · rw [libGetTime_eq hfreq, libGetTime_eq hfreq] at hread
      obtain ⟨_, _, _, _, htime, htime', hvalid, hvalid', horder⟩ := hread
      cases htime
      cases htime'
      rw [valid_dummyTime, huptime] at hvalid
      rw [valid_dummyTime, huptime'] at hvalid'
      rw [isEarlier_dummyTime, huptime, huptime', not_lt] at horder
      exact ⟨hfreq, hvalid, hvalid', horder⟩
  · intro h old old' oldCapabilities oldCapabilities'
    refine ⟨_, _, _, _, libGetTime_eq h.freq, libGetTime_eq h.freq, ?_, ?_, ?_⟩
    · rw [valid_dummyTime, huptime]
      exact h.first
    · rw [valid_dummyTime, huptime']
      exact h.second
    · rw [isEarlier_dummyTime, huptime, huptime', not_lt]
      exact h.order

/-- Right after power on it is the day zero of January. -/
theorem libGetTime_not_validMonotone : ¬ValidMonotone 19200000 0 0 := by
  intro h
  obtain ⟨time, _, _, _, htime, -, hvalid, -⟩ := h zeroTime zeroTime none none
  cases htime
  exact absurd hvalid.day.1 (by decide)

end ProjectMu
