/-
The clock at boot (kernel/time.c): the registers of the RTC as a date, and the date
as seconds since 1970 in the 32-bit arithmetic of `kernel_mktime`.
-/

import MangoOS.Library.Words
import MangoOS.Library.Calendar
import Mathlib.Tactic.IntervalCases

namespace MangoOS

namespace Clock

open Calendar

def minute : Int := 60

def hour : Int := 60 * minute

def day : Int := 24 * hour

def year : Int := 365 * day

/-- `month`: the seconds before each month of a leap year. -/
def month : List Int :=
  [ 0,
    day * 31,
    day * (31 + 29),
    day * (31 + 29 + 31),
    day * (31 + 29 + 31 + 30),
    day * (31 + 29 + 31 + 30 + 31),
    day * (31 + 29 + 31 + 30 + 31 + 30),
    day * (31 + 29 + 31 + 30 + 31 + 30 + 31),
    day * (31 + 29 + 31 + 30 + 31 + 30 + 31 + 31),
    day * (31 + 29 + 31 + 30 + 31 + 30 + 31 + 31 + 30),
    day * (31 + 29 + 31 + 30 + 31 + 30 + 31 + 31 + 30 + 31),
    day * (31 + 29 + 31 + 30 + 31 + 30 + 31 + 31 + 30 + 31 + 30) ]

/-- `time_t`. -/
structure TimeT where
  tmSec : Int
  tmMin : Int
  tmHour : Int
  tmDay : Int
  tmMon : Int
  tmYear : Int
  deriving DecidableEq

/-- `kernel_mktime`; products that do not fit an `int` wrap around. -/
def kernelMktime (tm : TimeT) : Nat :=
  let years := int32 (tm.tmYear - 1970)
  let res := uint32 (int32 (int32 (year * years) + int32 (day * (int32 (years + 1)).tdiv 4)))
  let res := uint32 (res + month.getD tm.tmMon.toNat 0)
  let res := if tm.tmMon > 1 ∧ (int32 (years + 2)).tmod 4 ≠ 0 then uint32 (res - day) else res
  let res := uint32 (res + int32 (day * int32 (tm.tmDay - 1)))
  let res := uint32 (res + int32 (hour * tm.tmHour))
  let res := uint32 (res + int32 (minute * tm.tmMin))
  uint32 (res + tm.tmSec)

/-- `get_rtc_reg`: the byte in a register. -/
def getRtcReg (rtc : Nat → Nat) (reg : Nat) : Nat := rtc reg % 256

/-- A BCD byte as a number. -/
def fromBcd (value : Nat) : Nat := (value &&& 0x0F) + (value >>> 4) * 10

def getRtcTime (rtc : Nat → Nat) : TimeT where
  tmSec := fromBcd (getRtcReg rtc 0x00)
  tmMin := fromBcd (getRtcReg rtc 0x02)
  tmHour := fromBcd (getRtcReg rtc 0x04)
  tmDay := fromBcd (getRtcReg rtc 0x07)
  tmMon := int32 (uint32 ((fromBcd (getRtcReg rtc 0x08) : Int) - 1))
  tmYear := int32 (uint32 ((fromBcd (getRtcReg rtc 0x09) : Int) + 2000))

/-! ### What the registers hold -/

def toBcd (value : Nat) : Nat := 16 * (value / 10) + value % 10

/-- The registers show a moment in 24-hour BCD. -/
structure Presents (rtc : Nat → Nat) (moment : Moment) : Prop where
  second : rtc 0x00 = toBcd moment.second
  minute : rtc 0x02 = toBcd moment.minute
  hour : rtc 0x04 = toBcd moment.hour
  day : rtc 0x07 = toBcd moment.day
  month : rtc 0x08 = toBcd moment.month
  year : rtc 0x09 = toBcd (moment.year % 100)

/-- The fields of `time_t` for a moment. -/
def timeOf (moment : Moment) : TimeT where
  tmSec := moment.second
  tmMin := moment.minute
  tmHour := moment.hour
  tmDay := moment.day
  tmMon := moment.month - 1
  tmYear := moment.year

theorem fromBcd_toBcd {value : Nat} (upper : value < 100) :
    fromBcd (toBcd value % 256) = value := by
  have low (byte : Nat) : byte &&& 0x0F = byte % 16 := Nat.and_two_pow_sub_one_eq_mod byte 4
  have high (byte : Nat) : byte >>> 4 = byte / 16 := Nat.shiftRight_eq_div_pow byte 4
  unfold fromBcd toBcd
  rw [low, high]
  omega

theorem monthDays_upper (year month : Nat) : monthDays year month ≤ 31 := by
  unfold monthDays
  split <;> try split
  all_goals omega

theorem getRtcTime_presents {rtc : Nat → Nat} {moment : Moment} (lower : 2000 ≤ moment.year)
    (upper : moment.year ≤ 2099) (shows : Presents rtc moment) :
    getRtcTime rtc = timeOf moment := by
  have days := Nat.le_trans moment.dayUpper (monthDays_upper moment.year moment.month)
  have seconds := fromBcd_toBcd (Nat.lt_trans moment.secondUpper (by decide))
  have minutes := fromBcd_toBcd (Nat.lt_trans moment.minuteUpper (by decide))
  have hours := fromBcd_toBcd (Nat.lt_trans moment.hourUpper (by decide))
  have day := fromBcd_toBcd (Nat.lt_of_le_of_lt days (by decide))
  have month := fromBcd_toBcd (Nat.lt_of_le_of_lt moment.monthUpper (by decide))
  have century := fromBcd_toBcd (Nat.mod_lt moment.year (by decide : 0 < 100))
  have monthLower := moment.monthLower
  have monthUpper := moment.monthUpper
  have tmMon : int32 (uint32 ((moment.month : Int) - 1)) = moment.month - 1 := by
    rw [uint32_of_range (by omega) (by omega), int32_of_range (by omega) (by omega)]
  have tmYear : int32 (uint32 (((moment.year % 100 : Nat) : Int) + 2000)) = moment.year := by
    rw [uint32_of_range (by omega) (by omega), int32_of_range (by omega) (by omega)]
    omega
  unfold getRtcTime timeOf getRtcReg
  rw [shows.second, shows.minute, shows.hour, shows.day, shows.month, shows.year, seconds,
    minutes, hours, day, month, century, tmMon, tmYear]

/-! ### The sum -/

/-- What `kernel_mktime` adds up, before any of it wraps around. -/
def exactSum (tm : TimeT) : Int :=
  let years := int32 (tm.tmYear - 1970)
  year * years + day * (int32 (years + 1)).tdiv 4 + month.getD tm.tmMon.toNat 0 +
    (if tm.tmMon > 1 ∧ (int32 (years + 2)).tmod 4 ≠ 0 then -day else 0) +
    day * int32 (tm.tmDay - 1) + hour * tm.tmHour + minute * tm.tmMin + tm.tmSec

/-- Only the value of the whole sum modulo 2^32 matters. -/
theorem kernelMktime_exact (tm : TimeT) : kernelMktime tm = uint32 (exactSum tm) := by
  unfold kernelMktime exactSum
  dsimp only
  generalize int32 (tm.tmYear - 1970) = years
  by_cases later : tm.tmMon > 1 ∧ (int32 (years + 2)).tmod 4 ≠ 0
  · rw [if_pos later, if_pos later]
    simp only [uint32_of_int32, uint32_add, uint32_add_int32, int32_add, int32_add_int32,
      sub_eq_add_neg]
  · rw [if_neg later, if_neg later]
    simp only [uint32_of_int32, uint32_add, uint32_add_int32, int32_add, int32_add_int32,
      add_zero]

theorem month_days (year : Nat) {index : Nat} (lower : 1 ≤ index) (upper : index ≤ 12) :
    month.getD (index - 1) 0 + (if 2 < index ∧ ¬ IsLeap year then -day else 0) =
      day * daysToMonth year index := by
  by_cases leap : IsLeap year
  · interval_cases index <;> simp [month, daysToMonth, monthDays, leap, day, hour, minute]
  · interval_cases index <;> simp [month, daysToMonth, monthDays, leap, day, hour, minute]

theorem isLeap_iff {year : Nat} (lower : 1970 ≤ year) (upper : year ≤ 2099) :
    IsLeap year ↔ year % 4 = 0 := by
  unfold IsLeap
  constructor
  · exact And.left
  · intro fourth
    refine ⟨fourth, ?_⟩
    omega

theorem daysOfYears_closed (years : Nat) (upper : years ≤ 130) :
    daysOfYears 1970 years = 365 * years + (years + 1) / 4 := by
  induction years with
  | zero => rfl
  | succ years ih =>
      rw [daysOfYears, ih (by omega), yearDays]
      by_cases leap : IsLeap (1970 + years)
      · have fourth := (isLeap_iff (by omega) (by omega)).mp leap
        rw [if_pos leap]
        omega
      · have other : ¬ (1970 + years) % 4 = 0 := fun fourth =>
          leap ((isLeap_iff (by omega) (by omega)).mpr fourth)
        rw [if_neg leap]
        omega

theorem exactSum_timeOf {moment : Moment} (lower : 1970 ≤ moment.year)
    (upper : moment.year ≤ 2099) : exactSum (timeOf moment) = moment.secondsSince 1970 := by
  obtain ⟨years, isYear⟩ : ∃ years, moment.year = 1970 + years :=
    ⟨moment.year - 1970, by omega⟩
  have monthLower := moment.monthLower
  have monthUpper := moment.monthUpper
  have dayLower := moment.dayLower
  have days := Nat.le_trans moment.dayUpper (monthDays_upper moment.year moment.month)
  have since : int32 ((moment.year : Int) - 1970) = years := by
    rw [int32_of_range (by omega) (by omega)]
    omega
  have next : int32 ((years : Int) + 1) = ((years + 1 : Nat) : Int) :=
    int32_of_range (by omega) (by omega)
  have afterNext : int32 ((years : Int) + 2) = ((years + 2 : Nat) : Int) :=
    int32_of_range (by omega) (by omega)
  have inMonth : int32 ((moment.day : Int) - 1) = moment.day - 1 :=
    int32_of_range (by omega) (by omega)
  have leaps : ((years + 1 : Nat) : Int).tdiv 4 = (((years + 1) / 4 : Nat) : Int) := rfl
  have fourth : ((years + 2 : Nat) : Int).tmod 4 = (((years + 2) % 4 : Nat) : Int) := rfl
  have notLeap : ((moment.month : Int) - 1 > 1 ∧ (((years + 2) % 4 : Nat) : Int) ≠ 0) ↔
      (2 < moment.month ∧ ¬ IsLeap moment.year) := by
    rw [isLeap_iff lower upper]
    omega
  have index : ((moment.month : Int) - 1).toNat = moment.month - 1 := by omega
  have months := month_days moment.year monthLower monthUpper
  have closed := daysOfYears_closed years (by omega)
  have inYears : moment.year - 1970 = years := by omega
  unfold exactSum timeOf Moment.secondsSince Moment.dayOfYear Moment.secondOfDay
  dsimp only
  rw [since, next, afterNext, inMonth, leaps, fourth, if_congr notLeap rfl rfl, index, inYears,
    closed, add_assoc (year * _ + _), months]
  unfold year day hour minute
  omega

theorem secondsSince_upper {moment : Moment} (lower : 1970 ≤ moment.year)
    (upper : moment.year ≤ 2099) : moment.secondsSince 1970 < 4294967296 := by
  have years := daysOfYears_mono 1970 (by omega : moment.year - 1970 ≤ 129)
  rw [daysOfYears_closed 129 (by decide)] at years
  have inYear := moment.dayOfYear_lt_year
  have length : yearDays moment.year ≤ 366 := by
    unfold yearDays
    split <;> omega
  have inDay := moment.secondOfDay_lt
  unfold Moment.secondsSince
  omega

theorem kernelMktime_timeOf {moment : Moment} (lower : 1970 ≤ moment.year)
    (upper : moment.year ≤ 2099) : kernelMktime (timeOf moment) = moment.secondsSince 1970 := by
  have small := secondsSince_upper lower upper
  have exact := uint32_of_range (Int.natCast_nonneg (moment.secondsSince 1970)) (by omega)
  rw [kernelMktime_exact, exactSum_timeOf lower upper]
  exact Int.ofNat.inj exact

/-- The time read at boot is the number of seconds since 1970, and later dates have later
times. -/
theorem kernelMktime_seconds :
    (∀ (moment : Moment) (rtc : Nat → Nat), 2000 ≤ moment.year → moment.year ≤ 2099 →
      Presents rtc moment →
        getRtcTime rtc = timeOf moment ∧
        kernelMktime (getRtcTime rtc) = moment.secondsSince 1970) ∧
    ∀ left right : Moment, 1970 ≤ left.year → right.year ≤ 2099 → left.Before right →
      kernelMktime (timeOf left) < kernelMktime (timeOf right) := by
  constructor
  · intro moment rtc lower upper shows
    have fields := getRtcTime_presents lower upper shows
    refine ⟨fields, ?_⟩
    rw [fields]
    exact kernelMktime_timeOf (by omega) upper
  · intro left right lower upper order
    have years : left.year ≤ right.year := by
      rcases order with year | ⟨same, _⟩
      · exact Nat.le_of_lt year
      · exact Nat.le_of_eq same
    rw [kernelMktime_timeOf lower (by omega), kernelMktime_timeOf (by omega) upper]
    exact Moment.secondsSince_mono lower order

private def leapDay : Moment :=
  ⟨2024, 2, 29, 23, 59, 59, by decide, by decide, by decide, by decide, by decide, by decide,
    by decide⟩

private def dayAfter : Moment :=
  ⟨2024, 3, 1, 0, 0, 0, by decide, by decide, by decide, by decide, by decide, by decide,
    by decide⟩

private def registers : Nat → Nat
  | 0x00 => 0x59
  | 0x02 => 0x59
  | 0x04 => 0x23
  | 0x07 => 0x29
  | 0x08 => 0x02
  | _ => 0x24

/-- The last second of 29 February 2024. -/
theorem kernelMktime_seconds_leapDay :
    kernelMktime (getRtcTime registers) = 1709251199 ∧
      kernelMktime (timeOf leapDay) < kernelMktime (timeOf dayAfter) := by
  have shows : Presents registers leapDay := ⟨rfl, rfl, rfl, rfl, rfl, rfl⟩
  obtain ⟨_, seconds⟩ := kernelMktime_seconds.1 leapDay registers (by decide) (by decide) shows
  refine ⟨seconds.trans (by decide +kernel), ?_⟩
  exact kernelMktime_seconds.2 leapDay dayAfter (by decide) (by decide)
    (Or.inr ⟨rfl, Or.inl (by decide)⟩)

end Clock

end MangoOS
