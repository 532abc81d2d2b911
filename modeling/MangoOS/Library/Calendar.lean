/-
The Gregorian calendar: days before a year and a month, the seconds from the start
of a year to a moment, and that later moments have more of them.
-/

import Mathlib.Data.Nat.Basic

namespace MangoOS

namespace Calendar

/-- Every fourth year, but of the centuries only every fourth. -/
def IsLeap (year : Nat) : Prop := year % 4 = 0 ∧ (year % 100 ≠ 0 ∨ year % 400 = 0)

instance (year : Nat) : Decidable (IsLeap year) :=
  inferInstanceAs (Decidable (year % 4 = 0 ∧ (year % 100 ≠ 0 ∨ year % 400 = 0)))

/-- The days of a month, January being 1. -/
def monthDays (year : Nat) : (month : Nat) → Nat
  | 2 => if IsLeap year then 29 else 28
  | 4 => 30
  | 6 => 30
  | 9 => 30
  | 11 => 30
  | _ => 31

def yearDays (year : Nat) : Nat := if IsLeap year then 366 else 365

/-- The days of a year before a month of it. -/
def daysToMonth (year : Nat) : (month : Nat) → Nat
  | 0 => 0
  | 1 => 0
  | month + 2 => daysToMonth year (month + 1) + monthDays year (month + 1)

/-- The days of `years` years from the start of year `base` on. -/
def daysOfYears (base : Nat) : (years : Nat) → Nat
  | 0 => 0
  | years + 1 => daysOfYears base years + yearDays (base + years)

/-- A date and a time of day that exist. -/
structure Moment where
  year : Nat
  month : Nat
  day : Nat
  hour : Nat
  minute : Nat
  second : Nat
  monthLower : 1 ≤ month
  monthUpper : month ≤ 12
  dayLower : 1 ≤ day
  dayUpper : day ≤ monthDays year month
  hourUpper : hour < 24
  minuteUpper : minute < 60
  secondUpper : second < 60

/-- The days of its year that are over. -/
def Moment.dayOfYear (moment : Moment) : Nat :=
  daysToMonth moment.year moment.month + (moment.day - 1)

def Moment.secondOfDay (moment : Moment) : Nat :=
  3600 * moment.hour + 60 * moment.minute + moment.second

/-- The seconds from the start of year `base` on. -/
def Moment.secondsSince (base : Nat) (moment : Moment) : Nat :=
  86400 * (daysOfYears base (moment.year - base) + moment.dayOfYear) + moment.secondOfDay

/-- Earlier in the order of year, month, day, hour, minute and second. -/
def Moment.Before (left right : Moment) : Prop :=
  left.year < right.year ∨ left.year = right.year ∧
  (left.month < right.month ∨ left.month = right.month ∧
  (left.day < right.day ∨ left.day = right.day ∧
  (left.hour < right.hour ∨ left.hour = right.hour ∧
  (left.minute < right.minute ∨ left.minute = right.minute ∧
  left.second < right.second))))

/-! ### Days -/

theorem daysToMonth_step (year : Nat) {month : Nat} (lower : 1 ≤ month) :
    daysToMonth year (month + 1) = daysToMonth year month + monthDays year month := by
  obtain ⟨before, rfl⟩ := Nat.exists_eq_add_of_le' lower
  rfl

theorem daysToMonth_mono (year : Nat) {month later : Nat} (lower : 1 ≤ month)
    (order : month ≤ later) : daysToMonth year month ≤ daysToMonth year later := by
  induction order with
  | refl => exact Nat.le_refl _
  | @step later order ih =>
      have step := daysToMonth_step year (Nat.le_trans lower order)
      rw [Nat.succ_eq_add_one, step]
      exact Nat.le_trans ih (Nat.le_add_right _ _)

theorem daysToMonth_year (year : Nat) : daysToMonth year 13 = yearDays year := by
  unfold yearDays
  by_cases leap : IsLeap year
  · simp [daysToMonth, monthDays, leap]
  · simp [daysToMonth, monthDays, leap]

theorem daysOfYears_mono (base : Nat) {years later : Nat} (order : years ≤ later) :
    daysOfYears base years ≤ daysOfYears base later := by
  induction order with
  | refl => exact Nat.le_refl _
  | step order ih => exact Nat.le_trans ih (Nat.le_add_right _ _)

theorem Moment.dayOfYear_lt (moment : Moment) :
    moment.dayOfYear < daysToMonth moment.year (moment.month + 1) := by
  have step := daysToMonth_step moment.year moment.monthLower
  have lower := moment.dayLower
  have upper := moment.dayUpper
  unfold dayOfYear
  omega

theorem Moment.dayOfYear_lt_year (moment : Moment) :
    moment.dayOfYear < yearDays moment.year := by
  have months := daysToMonth_mono moment.year (by omega : 1 ≤ moment.month + 1)
    (Nat.succ_le_succ moment.monthUpper)
  rw [daysToMonth_year] at months
  exact Nat.lt_of_lt_of_le moment.dayOfYear_lt months

theorem Moment.secondOfDay_lt (moment : Moment) : moment.secondOfDay < 86400 := by
  have hours := moment.hourUpper
  have minutes := moment.minuteUpper
  have seconds := moment.secondUpper
  unfold secondOfDay
  omega

/-! ### Later moments -/

variable {left right : Moment}

/-- Of two days of one year the later one has more days before it. -/
theorem Moment.dayOfYear_mono (sameYear : left.year = right.year)
    (order : left.month < right.month ∨ left.month = right.month ∧ left.day < right.day) :
    left.dayOfYear < right.dayOfYear := by
  rcases order with earlier | ⟨sameMonth, earlier⟩
  · have months := daysToMonth_mono left.year (by omega : 1 ≤ left.month + 1) earlier
    have below := left.dayOfYear_lt
    rw [sameYear] at months below
    unfold dayOfYear at below ⊢
    omega
  · have lower := left.dayLower
    unfold dayOfYear
    rw [sameYear, sameMonth]
    omega

theorem Moment.days_mono {base : Nat} (since : base ≤ left.year) (order : left.year < right.year) :
    daysOfYears base (left.year - base) + left.dayOfYear <
      daysOfYears base (right.year - base) + right.dayOfYear := by
  have below := left.dayOfYear_lt_year
  have years := daysOfYears_mono base (by omega : left.year - base + 1 ≤ right.year - base)
  have step : daysOfYears base (left.year - base + 1) =
      daysOfYears base (left.year - base) + yearDays left.year := by
    rw [daysOfYears, Nat.add_sub_of_le since]
  omega

theorem Moment.secondsSince_mono {base : Nat} (since : base ≤ left.year)
    (order : left.Before right) : left.secondsSince base < right.secondsSince base := by
  have leftDay := left.secondOfDay_lt
  rcases order with year | ⟨sameYear, order⟩
  · have days := days_mono since year
    unfold secondsSince
    omega
  · have years : daysOfYears base (left.year - base) = daysOfYears base (right.year - base) := by
      rw [sameYear]
    rcases order with month | ⟨sameMonth, order⟩
    · have days := dayOfYear_mono sameYear (Or.inl month)
      unfold secondsSince
      omega
    · rcases order with day | ⟨sameDay, order⟩
      · have days := dayOfYear_mono sameYear (Or.inr ⟨sameMonth, day⟩)
        unfold secondsSince
        omega
      · have days : left.dayOfYear = right.dayOfYear := by
          unfold dayOfYear
          rw [sameYear, sameMonth, sameDay]
        have leftMinute := left.minuteUpper
        have leftSecond := left.secondUpper
        unfold secondsSince secondOfDay
        rw [years, days]
        omega

end Calendar

end MangoOS
