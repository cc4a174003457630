/-
  File:      Lithograph/Cypher/Calendar.lean
  Subject:   Calendar dates and day numbers (`cypher/temporal.rs`).

  Years are counted from March, in eras of 400 years. Divisions round towards zero, as in the
  source.
-/
import Mathlib.Data.List.Basic

namespace Lithograph.Cypher

/-- `is_leap_year`; a remainder is only compared with zero, so its sign does not matter. -/
def isLeapYear (year : Int) : Bool :=
  year % 4 == 0 && (year % 100 != 0 || year % 400 == 0)

def daysInMonth (year : Int) (month : Nat) : Nat :=
  match month with
  | 1 | 3 | 5 | 7 | 8 | 10 | 12 => 31
  | 4 | 6 | 9 | 11 => 30
  | 2 => if isLeapYear year then 29 else 28
  | _ => 0

def daysFromCivil (year : Int) (month day : Nat) : Int :=
  let year := year - (if month ≤ 2 then 1 else 0)
  let era := (if 0 ≤ year then year else year - 399).tdiv 400
  let yearOfEra := year - era * 400
  let dayOfYear := (153 * ((month : Int) + (if month > 2 then -3 else 9)) + 2) / 5 + day - 1
  let dayOfEra := yearOfEra * 365 + yearOfEra / 4 - yearOfEra / 100 + dayOfYear
  era * 146097 + dayOfEra - 719468

/-- `civil_from_days`: year, month and day. -/
def civilFromDays (days : Int) : Int × Nat × Nat :=
  let z := days + 719468
  let era := (if 0 ≤ z then z else z - 146096).tdiv 146097
  let doe := z - era * 146097
  let yoe := (doe - doe / 1460 + doe / 36524 - doe / 146096) / 365
  let year := yoe + era * 400
  let doy := doe - (365 * yoe + yoe / 4 - yoe / 100)
  let mp := (5 * doy + 2) / 153
  let day := doy - (153 * mp + 2) / 5 + 1
  let month := mp + (if mp < 10 then 3 else -9)
  (year + (if month ≤ 2 then 1 else 0), month.toNat, day.toNat)

/-- A date of the calendar. -/
structure CivilDate (year : Int) (month day : Nat) : Prop where
  month_pos : 1 ≤ month
  month_le : month ≤ 12
  day_pos : 1 ≤ day
  day_le : day ≤ daysInMonth year month

/-- The division of the source rounds down. -/
theorem tdiv_shifted (x : Int) {n : Int} (hn : 0 < n) :
    (if 0 ≤ x then x else x - (n - 1)).tdiv n = x / n := by
  split
  · rename_i h
    exact Int.tdiv_eq_ediv_of_nonneg h
  · have hneg : x - (n - 1) = -(-x + (n - 1)) := by omega
    rw [hneg, Int.neg_tdiv, Int.tdiv_eq_ediv_of_nonneg (by omega)]
    have hdiv := Int.mul_ediv_add_emod (-x + (n - 1)) n
    have hlow := Int.emod_nonneg (-x + (n - 1)) (by omega : n ≠ 0)
    have hhigh := Int.emod_lt_of_pos (-x + (n - 1)) hn
    symm
    rw [Int.ediv_eq_iff_of_pos hn, Int.neg_mul, Int.mul_comm]
    omega

variable {doy year : Int} {month day : Nat}

/-- The year of an era from its day, leap days (the day 365) included. -/
theorem year_of_day {century cycle rest doe : Int} (hcentury : 0 ≤ century ∧ century ≤ 3)
    (hcycle : 0 ≤ cycle ∧ cycle ≤ 24) (hrest : 0 ≤ rest ∧ rest ≤ 3) (hdoy : 0 ≤ doy ∧ doy ≤ 365)
    (hleap : doy = 365 → rest = 3 ∧ (cycle ≠ 24 ∨ century = 3))
    (hdoe : doe = 36524 * century + 1461 * cycle + 365 * rest + doy) :
    (doe - doe / 1460 + doe / 36524 - doe / 146096) / 365 = 100 * century + 4 * cycle + rest := by
  have hcases : century = 0 ∨ century = 1 ∨ century = 2 ∨ century = 3 := by omega
  have hhundred : doe / 36524 = century ∨
      (doe / 36524 = century + 1 ∧ century = 3 ∧ cycle = 24 ∧ rest = 3 ∧ doy = 365) := by omega
  have hrests : rest = 0 ∨ rest = 1 ∨ rest = 2 ∨ rest = 3 := by omega
  rcases hcases with rfl | rfl | rfl | rfl <;> rcases hrests with rfl | rfl | rfl | rfl <;> omega

/-- Month and day from the day of the year. -/
theorem month_of_day {mp day : Int} (hday : 1 ≤ day)
    (hlast : mp ≤ 10 ∧ day ≤ (153 * (mp + 1) + 2) / 5 - (153 * mp + 2) / 5 ∨ mp = 11 ∧ day ≤ 29)
    (hdoy : doy = (153 * mp + 2) / 5 + day - 1) : (5 * doy + 2) / 153 = mp := by
  omega

theorem leap_year_iff :
    isLeapYear year = true ↔ year % 4 = 0 ∧ (year % 100 ≠ 0 ∨ year % 400 = 0) := by
  simp [isLeapYear]

theorem day_of_year (h : CivilDate year month day) :
    let mp : Int := (month : Int) + (if month > 2 then -3 else 9)
    (0 ≤ mp ∧ mp ≤ 11) ∧
      (mp ≤ 10 ∧ (day : Int) ≤ (153 * (mp + 1) + 2) / 5 - (153 * mp + 2) / 5 ∨
        mp = 11 ∧ (day : Int) ≤ 29) ∧
      (mp = 11 ↔ month = 2) ∧ (month = 2 → day = 29 → isLeapYear year = true) ∧
      (if mp < 10 then mp + 3 else mp - 9) = month := by
  obtain ⟨hlow, hhigh, hpos, hle⟩ := h
  have hcases : month = 1 ∨ month = 2 ∨ month = 3 ∨ month = 4 ∨ month = 5 ∨ month = 6 ∨ month = 7 ∨
      month = 8 ∨ month = 9 ∨ month = 10 ∨ month = 11 ∨ month = 12 := by omega
  rcases hcases with rfl | rfl | rfl | rfl | rfl | rfl | rfl | rfl | rfl | rfl | rfl | rfl
  case inr.inl =>
    have hleap : day = 29 → isLeapYear year = true := by
      intro hd
      simp only [daysInMonth] at hle
      split at hle
      · assumption
      · omega
    have hle' : day ≤ 29 := by
      simp only [daysInMonth] at hle
      split at hle <;> omega
    refine ⟨by omega, by omega, by omega, fun _ => hleap, by omega⟩
  all_goals
    simp only [daysInMonth] at hle
    omega

/-- The day of an era from its year and the day of the year. -/
theorem day_of_era {yoe : Int} (hyoe : 0 ≤ yoe ∧ yoe < 400) (hdoy : 0 ≤ doy ∧ doy ≤ 365)
    (hleap : doy = 365 → yoe % 4 = 3 ∧ (yoe % 100 ≠ 99 ∨ yoe = 399)) :
    let doe := yoe * 365 + yoe / 4 - yoe / 100 + doy
    (0 ≤ doe ∧ doe < 146097) ∧ (doe - doe / 1460 + doe / 36524 - doe / 146096) / 365 = yoe := by
  refine ⟨by omega, ?_⟩
  have hdoe : yoe * 365 + yoe / 4 - yoe / 100 + doy =
      36524 * (yoe / 100) + 1461 * (yoe % 100 / 4) + 365 * (yoe % 4) + doy := by omega
  have hlast : doy = 365 → yoe % 4 = 3 ∧ (yoe % 100 / 4 ≠ 24 ∨ yoe / 100 = 3) := by
    omega
  rw [year_of_day (by omega) (by omega) (by omega) hdoy hlast hdoe]
  omega

/-- The parts of a day number. -/
theorem daysFromCivil_era (h : CivilDate year month day) :
    ∃ era doe yoe doy mp : Int, daysFromCivil year month day = era * 146097 + doe - 719468 ∧
      (0 ≤ doe ∧ doe < 146097) ∧ (0 ≤ yoe ∧ yoe < 400) ∧
      year = era * 400 + yoe + (if month ≤ 2 then 1 else 0) ∧
      (doe - doe / 1460 + doe / 36524 - doe / 146096) / 365 = yoe ∧
      doe - (365 * yoe + yoe / 4 - yoe / 100) = doy ∧ (5 * doy + 2) / 153 = mp ∧
      doy - (153 * mp + 2) / 5 + 1 = day ∧ mp + (if mp < 10 then 3 else -9) = (month : Int) ∧
      0 ≤ doy ∧ doy ≤ 365 := by
  obtain ⟨hmp, hday, hfeb, hleap, hmonth⟩ := day_of_year h
  have hpos := h.day_pos
  -- the year that starts in March and the day of that year
  obtain ⟨march, hmarch⟩ : ∃ march, march = year - (if month ≤ 2 then 1 else 0) := ⟨_, rfl⟩
  obtain ⟨mp, hmpdef⟩ : ∃ mp, mp = (month : Int) + (if month > 2 then -3 else 9) := ⟨_, rfl⟩
  obtain ⟨doy, hdoy⟩ : ∃ doy, doy = (153 * mp + 2) / 5 + (day : Int) - 1 := ⟨_, rfl⟩
  rw [← hmpdef] at hmp hday hfeb hmonth
  have hdoybound : 0 ≤ doy ∧ doy ≤ 365 := by omega
  have hlast : doy = 365 →
      (march % 400) % 4 = 3 ∧ ((march % 400) % 100 ≠ 99 ∨ march % 400 = 399) := by
    intro h365
    have hmonth2 : month = 2 := by omega
    have hday29 : day = 29 := by omega
    have hyear := leap_year_iff.mp (hleap hmonth2 hday29)
    omega
  have hyoebound : 0 ≤ march % 400 ∧ march % 400 < 400 := by omega
  obtain ⟨hdoe, hyoe⟩ := day_of_era hyoebound hdoybound hlast
  have hera : (if 0 ≤ march then march else march - 399).tdiv 400 = march / 400 :=
    tdiv_shifted march (by omega : (0 : Int) < 400)
  have hdays : daysFromCivil year month day = march / 400 * 146097 +
      (march % 400 * 365 + march % 400 / 4 - march % 400 / 100 + doy) - 719468 := by
    unfold daysFromCivil
    dsimp only
    rw [← hmarch, hera, ← hmpdef, ← hdoy, show march - march / 400 * 400 = march % 400 by omega]
  have hdaypos : 1 ≤ (day : Int) := by omega
  have hmpback : (5 * doy + 2) / 153 = mp := month_of_day hdaypos hday hdoy
  refine ⟨march / 400, march % 400 * 365 + march % 400 / 4 - march % 400 / 100 + doy, march % 400,
    doy, mp, hdays, hdoe, hyoebound, by omega, hyoe, by omega, hmpback, by omega, ?_, hdoybound⟩
  split at hmonth
  · rw [if_pos ‹_›]
    exact hmonth
  · omega

/-- **A date is found again from its day number.** -/
theorem civilFromDays_daysFromCivil (h : CivilDate year month day) :
    civilFromDays (daysFromCivil year month day) = (year, month, day) := by
  obtain ⟨era, doe, yoe, doy, mp, hdays, hdoe, _, hyear, hyoe, hdoy, hmp, hday, hmonth, _⟩ :=
    daysFromCivil_era h
  have hz : daysFromCivil year month day + 719468 = era * 146097 + doe := by omega
  have hzera : (if 0 ≤ era * 146097 + doe then era * 146097 + doe
      else era * 146097 + doe - 146096).tdiv 146097 = era := by
    refine (tdiv_shifted (era * 146097 + doe) (by omega : (0 : Int) < 146097)).trans ?_
    omega
  unfold civilFromDays
  dsimp only
  rw [hz, hzera, show era * 146097 + doe - era * 146097 = doe by omega, hyoe, hdoy, hmp, hmonth,
    hday]
  refine Prod.ext ?_ (Prod.ext ?_ ?_)
  · rw [hyear]
    split <;> split <;> omega
  · dsimp only
    omega
  · dsimp only
    omega

theorem daysFromCivil_bounds {year : Int} {month day : Nat} (h : CivilDate year month day)
    (hlow : -999999999 ≤ year) (hhigh : year ≤ 999999999) :
    -400000000000 ≤ daysFromCivil year month day ∧ daysFromCivil year month day ≤ 400000000000 := by
  obtain ⟨era, doe, yoe, doy, mp, hdays, hdoe, hyoe, hyear, _⟩ := daysFromCivil_era h
  split at hyear <;> omega

end Lithograph.Cypher
