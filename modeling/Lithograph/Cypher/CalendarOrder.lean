/-
  File:      Lithograph/Cypher/CalendarOrder.lean
  Subject:   Months, years and weeks as intervals of days.

  Months are numbered through; their first days ascend, and `civilFromDays` finds the month of a
  day.
-/
import Lithograph.Cypher.Calendar
import Lithograph.Library.Boundaries
import Mathlib.Tactic.IntervalCases

namespace Lithograph.Cypher

open Library

/-! ## 1. Months -/

/-- The number of a month. -/
def monthIndex (year : Int) (month : Nat) : Int := 12 * year + month - 1

/-- The year of a month. -/
def yearOf (n : Int) : Int := n / 12

/-- The month in its year. -/
def monthOf (n : Int) : Nat := (n % 12 + 1).toNat

/-- The first day of a month. -/
def monthStart (n : Int) : Int := daysFromCivil (yearOf n) (monthOf n) 1

def monthLength (n : Int) : Nat := daysInMonth (yearOf n) (monthOf n)

theorem monthOf_bounds (n : Int) : 1 ≤ monthOf n ∧ monthOf n ≤ 12 := by
  unfold monthOf
  omega

theorem monthIndex_eq (n : Int) : monthIndex (yearOf n) (monthOf n) = n := by
  unfold monthIndex yearOf monthOf
  omega

variable (year : Int)

/-- Years are counted from March, so that a leap day is the last of its year. -/
theorem daysFromCivil_eq (month day : Nat) :
    daysFromCivil year month day =
      365 * (year - (if month ≤ 2 then 1 else 0)) + (year - (if month ≤ 2 then 1 else 0)) / 4 -
        (year - (if month ≤ 2 then 1 else 0)) / 100 + (year - (if month ≤ 2 then 1 else 0)) / 400 +
        (153 * ((month : Int) + (if month > 2 then -3 else 9)) + 2) / 5 + day - 719469 := by
  unfold daysFromCivil
  dsimp only
  generalize year - (if month ≤ 2 then 1 else 0) = y
  have hera : (if 0 ≤ y then y else y - 399).tdiv 400 = y / 400 :=
    tdiv_shifted y (by omega : (0 : Int) < 400)
  omega

theorem daysFromCivil_day (month day : Nat) :
    daysFromCivil year month day = daysFromCivil year month 1 + day - 1 := by
  rw [daysFromCivil_eq, daysFromCivil_eq year month 1]
  omega

theorem monthIndex_succ (n : Int) :
    (monthOf n < 12 ∧ yearOf (n + 1) = yearOf n ∧ monthOf (n + 1) = monthOf n + 1) ∨
      (monthOf n = 12 ∧ yearOf (n + 1) = yearOf n + 1 ∧ monthOf (n + 1) = 1) := by
  unfold yearOf monthOf
  omega

theorem daysInMonth_february :
    (daysInMonth year 2 : Int) = 28 + ((year / 4 - (year - 1) / 4) -
      (year / 100 - (year - 1) / 100) + (year / 400 - (year - 1) / 400)) := by
  have hdays : daysInMonth year 2 = if isLeapYear year then 29 else 28 := rfl
  rw [hdays]
  by_cases hleap : isLeapYear year = true
  · rw [if_pos hleap]
    rw [leap_year_iff] at hleap
    omega
  · rw [if_neg hleap]
    rw [leap_year_iff] at hleap
    omega

variable {month : Nat} {n days : Int}

theorem daysFromCivil_next_month (hpos : 1 ≤ month) (hlt : month < 12) :
    daysFromCivil year (month + 1) 1 = daysFromCivil year month 1 + daysInMonth year month := by
  have hfebruary := daysInMonth_february year
  rw [daysFromCivil_eq, daysFromCivil_eq year month]
  -- the second month is the last of the year that starts in March
  by_cases hsecond : month = 2
  · rw [hsecond, hfebruary]
    omega
  · obtain hfirst | hlater := Nat.lt_or_gt_of_ne hsecond
    · interval_cases month
      norm_num [daysInMonth]
      omega
    · interval_cases month <;> norm_num [daysInMonth] <;> omega

theorem daysFromCivil_next_year : daysFromCivil (year + 1) 1 1 = daysFromCivil year 12 1 + 31 := by
  rw [daysFromCivil_eq, daysFromCivil_eq year 12]
  omega

theorem monthStart_succ (n : Int) : monthStart (n + 1) = monthStart n + monthLength n := by
  unfold monthStart monthLength
  obtain ⟨hlt, hyear, hmonth⟩ | ⟨heq, hyear, hmonth⟩ := monthIndex_succ n
  · rw [hyear, hmonth]
    exact daysFromCivil_next_month _ (monthOf_bounds n).1 hlt
  · rw [hyear, hmonth, heq]
    exact daysFromCivil_next_year _

theorem daysInMonth_bounds (h : 1 ≤ month ∧ month ≤ 12) :
    28 ≤ daysInMonth year month ∧ daysInMonth year month ≤ 31 := by
  obtain ⟨hlow, hhigh⟩ := h
  by_cases hsecond : month = 2
  · have hdays : daysInMonth year 2 = if isLeapYear year then 29 else 28 := rfl
    rw [hsecond, hdays]
    split <;> omega
  · obtain hfirst | hlater := Nat.lt_or_gt_of_ne hsecond
    · interval_cases month
      norm_num [daysInMonth]
    · interval_cases month <;> norm_num [daysInMonth]

theorem monthLength_bounds (n : Int) : 28 ≤ monthLength n ∧ monthLength n ≤ 31 :=
  daysInMonth_bounds (yearOf n) (monthOf_bounds n)

theorem civilDate_first (h : 1 ≤ month ∧ month ≤ 12) : CivilDate year month 1 :=
  ⟨h.1, h.2, le_refl 1, (by omega : 1 ≤ 28).trans (daysInMonth_bounds year h).1⟩

theorem strictMono_monthStart : StrictMono monthStart := by
  refine strictMono_int_of_lt_succ fun n => ?_
  have hbounds := monthLength_bounds n
  rw [monthStart_succ]
  omega

theorem civilDate_month {day : Nat} (h : 1 ≤ day ∧ day ≤ monthLength n) :
    CivilDate (yearOf n) (monthOf n) day :=
  ⟨(monthOf_bounds n).1, (monthOf_bounds n).2, h.1, h.2⟩

/-- **Year, month and day are those of the month the day lies in.** -/
theorem civilFromDays_month (h : LiesBetween monthStart n days) :
    civilFromDays days = (yearOf n, monthOf n, (days - monthStart n + 1).toNat) := by
  obtain ⟨hlow, hhigh⟩ := h
  rw [monthStart_succ] at hhigh
  have hdate : CivilDate (yearOf n) (monthOf n) (days - monthStart n + 1).toNat :=
    civilDate_month ⟨by omega, by omega⟩
  have hdays : daysFromCivil (yearOf n) (monthOf n) (days - monthStart n + 1).toNat = days := by
    have hstart : monthStart n = daysFromCivil (yearOf n) (monthOf n) 1 := rfl
    rw [daysFromCivil_day, ← hstart]
    omega
  have hback := civilFromDays_daysFromCivil hdate
  rwa [hdays] at hback

theorem exists_month (days : Int) : ∃ n, LiesBetween monthStart n days :=
  exists_between strictMono_monthStart days

/-- **Every day number is that of a date.** -/
theorem exists_civil (days : Int) : ∃ year month day, CivilDate year month day ∧ day < 100 ∧
    daysFromCivil year month day = days ∧ civilFromDays days = (year, month, day) := by
  obtain ⟨n, hn⟩ := exists_month days
  have hlow := hn.1
  have hhigh := hn.2
  have hlength := (monthLength_bounds n).2
  rw [monthStart_succ] at hhigh
  refine ⟨yearOf n, monthOf n, (days - monthStart n + 1).toNat, civilDate_month ?_, ?_, ?_,
    civilFromDays_month hn⟩
  · omega
  · omega
  · rw [daysFromCivil_day, ← monthStart]
    omega

/-! ## 2. Years -/

/-- The first day of a year. -/
def yearStart (year : Int) : Int := daysFromCivil year 1 1

theorem yearStart_eq : yearStart year = monthStart (12 * year) := by
  unfold yearStart monthStart yearOf monthOf
  rw [Int.mul_ediv_cancel_left _ (by omega), Int.mul_emod_right]
  rfl

theorem strictMono_months {k : Int} (hk : 0 < k) : StrictMono fun n => monthStart (k * n) :=
  strictMono_blocks strictMono_monthStart hk

theorem strictMono_yearStart : StrictMono yearStart := by
  have hmonths := strictMono_months (by omega : (0 : Int) < 12)
  intro a b h
  rw [yearStart_eq, yearStart_eq]
  exact hmonths h

theorem between_months {k : Int} (hk : 0 < k) (h : LiesBetween monthStart n days) :
    LiesBetween (fun n => monthStart (k * n)) (n / k) days :=
  between_blocks strictMono_monthStart hk h

/-- **The year of a day is the one it lies in.** -/
theorem between_year (days : Int) : LiesBetween yearStart (civilFromDays days).1 days := by
  obtain ⟨n, hn⟩ := exists_month days
  have hyear := between_months (by omega : (0 : Int) < 12) hn
  rw [civilFromDays_month hn]
  simp only [LiesBetween, yearStart_eq]
  exact hyear

theorem year_eq_iff {year : Int} :
    (civilFromDays days).1 = year ↔ LiesBetween yearStart year days :=
  ⟨fun h => h ▸ between_year days,
    fun h => (between_year days).unique strictMono_yearStart h⟩

theorem yearStart_succ :
    yearStart (year + 1) = yearStart year + (if isLeapYear year then 366 else 365) := by
  unfold yearStart
  rw [daysFromCivil_eq, daysFromCivil_eq year]
  norm_num
  split
  · next hleap =>
    rw [leap_year_iff] at hleap
    omega
  · next hleap =>
    rw [leap_year_iff] at hleap
    omega

theorem yearStart_step :
    yearStart year + 365 ≤ yearStart (year + 1) ∧ yearStart (year + 1) ≤ yearStart year + 366 := by
  rw [yearStart_succ]
  split <;> omega

/-! ## 3. Weeks -/

/-- `start_of_week`: the Monday of the week. -/
def startOfWeek (days : Int) : Int := days - (days + 3) % 7

/-- The day of the week, from Monday. -/
def dayOfWeek (days : Int) : Int := (days + 3) % 7 + 1

/-- The Monday of the week that has the fourth of January in it. -/
def firstMonday (year : Int) : Int := startOfWeek (daysFromCivil year 1 4)

/-- The year of a day in weeks: that of the Thursday of its week. -/
def weekYear (days : Int) : Int := (civilFromDays (days + (4 - dayOfWeek days))).1

theorem firstMonday_eq : firstMonday year = yearStart year + 3 - (yearStart year + 6) % 7 := by
  have hday := daysFromCivil_day year 1 4
  rw [firstMonday, startOfWeek, hday, yearStart]
  omega

theorem strictMono_firstMonday : StrictMono firstMonday := by
  refine strictMono_int_of_lt_succ fun year => ?_
  have hstep := yearStart_step year
  rw [firstMonday_eq, firstMonday_eq]
  omega

/-- The Thursday of a week lies in a year just where the week starts between its first Monday and
    that of the next. -/
theorem thursday_iff {year : Int} :
    (civilFromDays (startOfWeek days + 3)).1 = year ↔ LiesBetween firstMonday year days := by
  rw [year_eq_iff, LiesBetween, LiesBetween, firstMonday_eq, firstMonday_eq, startOfWeek]
  omega

/-- **The week-year of a day is the one it lies in.** -/
theorem between_weekYear (days : Int) : LiesBetween firstMonday (weekYear days) days := by
  rw [← thursday_iff, weekYear, dayOfWeek, startOfWeek]
  congr 2
  omega

/-! ## 4. The range -/

/-- The days whose year a date can have. -/
def DayInRange (days : Int) : Prop :=
  -999999999 ≤ (civilFromDays days).1 ∧ (civilFromDays days).1 ≤ 999999999

instance (days : Int) : Decidable (DayInRange days) := by
  unfold DayInRange
  infer_instance

theorem yearStart_first : yearStart (-999999999) = -365243219162 := by
  rw [yearStart, daysFromCivil_eq]
  norm_num

theorem yearStart_after : yearStart 1000000000 = 365241780472 := by
  rw [yearStart, daysFromCivil_eq]
  norm_num

theorem dayInRange_iff : DayInRange days ↔ -365243219162 ≤ days ∧ days < 365241780472 := by
  have hyear := between_year days
  have hlow : -999999999 ≤ (civilFromDays days).1 ↔ -365243219162 ≤ days := by
    constructor
    · intro h
      exact (strictMono_yearStart.monotone h).trans hyear.1
    · intro h
      exact (between_self strictMono_yearStart _).index_le strictMono_yearStart hyear h
  have hhigh : (civilFromDays days).1 ≤ 999999999 ↔ days < 365241780472 := by
    rw [← yearStart_after]
    constructor
    · intro h
      exact lt_of_lt_of_le hyear.2 (strictMono_yearStart.monotone (by omega))
    · by_contra hlt
      have hle := strictMono_yearStart.monotone (by omega : 1000000000 ≤ (civilFromDays days).1)
      have hstart := hyear.1
      omega
  rw [DayInRange, hlow, hhigh]

theorem dayInRange_civil {year : Int} {month day : Nat} (h : CivilDate year month day) :
    DayInRange (daysFromCivil year month day) ↔ -999999999 ≤ year ∧ year ≤ 999999999 := by
  rw [DayInRange, civilFromDays_daysFromCivil h]

end Lithograph.Cypher
