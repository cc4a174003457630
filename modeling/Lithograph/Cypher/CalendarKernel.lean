/-
  File:      Lithograph/Cypher/CalendarKernel.lean
  Subject:   The conversions between dates and day numbers in 64 bits (`cypher/temporal.rs`).

  Every sum, difference and product is looked at as it is computed; one that does not fit leaves no
  result.

  * **`calendarKernel`**: over the years of a date they are inverse, ascend and never overflow.
-/
import Lithograph.Cypher.CalendarOrder

namespace Lithograph.Cypher

open Library

/-! ## 1. In 64 bits -/

/-- An `i64`. -/
def i64 (x : Int) : Option Int :=
  if -9223372036854775808 ≤ x ∧ x ≤ 9223372036854775807 then some x else none

theorem i64_eq {x : Int} (h : -9223372036854775808 ≤ x ∧ x ≤ 9223372036854775807) :
    i64 x = some x := if_pos h

/-- `days_from_civil`. -/
def daysFromCivil64 (year : Int) (month day : Nat) : Option Int := do
  let year ← i64 (year - (if month ≤ 2 then 1 else 0))
  let shifted ← i64 (if 0 ≤ year then year else year - 399)
  let era := shifted.tdiv 400
  let eraYears ← i64 (era * 400)
  let yearOfEra ← i64 (year - eraYears)
  let march ← i64 (month + (if month > 2 then -3 else 9))
  let months ← i64 (153 * march)
  let months ← i64 (months + 2)
  let before ← i64 (months.tdiv 5 + day)
  let dayOfYear ← i64 (before - 1)
  let years ← i64 (yearOfEra * 365)
  let leaps ← i64 (years + yearOfEra.tdiv 4)
  let leaps ← i64 (leaps - yearOfEra.tdiv 100)
  let dayOfEra ← i64 (leaps + dayOfYear)
  let eraDays ← i64 (era * 146097)
  let days ← i64 (eraDays + dayOfEra)
  i64 (days - 719468)

/-- `civil_from_days`. -/
def civilFromDays64 (days : Int) : Option (Int × Nat × Nat) := do
  let z ← i64 (days + 719468)
  let shifted ← i64 (if 0 ≤ z then z else z - 146096)
  let era := shifted.tdiv 146097
  let eraDays ← i64 (era * 146097)
  let doe ← i64 (z - eraDays)
  let yoe ← i64 (doe - doe.tdiv 1460)
  let yoe ← i64 (yoe + doe.tdiv 36524)
  let yoe ← i64 (yoe - doe.tdiv 146096)
  let yoe := yoe.tdiv 365
  let eraYears ← i64 (era * 400)
  let year ← i64 (yoe + eraYears)
  let days ← i64 (365 * yoe)
  let days ← i64 (days + yoe.tdiv 4)
  let days ← i64 (days - yoe.tdiv 100)
  let doy ← i64 (doe - days)
  let mp ← i64 (5 * doy)
  let mp ← i64 (mp + 2)
  let mp := mp.tdiv 153
  let start ← i64 (153 * mp)
  let start ← i64 (start + 2)
  let day ← i64 (doy - start.tdiv 5)
  let day ← i64 (day + 1)
  let month ← i64 (mp + (if mp < 10 then 3 else -9))
  let year ← i64 (year + (if month ≤ 2 then 1 else 0))
  pure (year, month.toNat, day.toNat)

variable {days days' year year' : Int} {month day month' day' : Nat}

theorem tdiv_nonneg {x n : Int} (h : 0 ≤ x) : x.tdiv n = x / n := Int.tdiv_eq_ediv_of_nonneg h

theorem i64_bind {α : Type} {x : Int} (h : -9223372036854775808 ≤ x ∧ x ≤ 9223372036854775807)
    (f : Int → Option α) : (i64 x >>= f) = f x := by
  rw [i64_eq h]
  rfl

/-- **No step of `days_from_civil` overflows.** -/
theorem daysFromCivil64_eq (h : CivilDate year month day) (hlow : -999999999 ≤ year)
    (hhigh : year ≤ 999999999) :
    daysFromCivil64 year month day = some (daysFromCivil year month day) := by
  have hmonth := h.month_le
  have hday := h.day_le.trans (daysInMonth_bounds year ⟨h.month_pos, h.month_le⟩).2
  unfold daysFromCivil64 daysFromCivil
  have hyear : -1000000000 ≤ year - (if month ≤ 2 then 1 else 0) ∧
      year - (if month ≤ 2 then 1 else 0) ≤ 1000000000 := by omega
  generalize year - (if month ≤ 2 then 1 else 0) = y at hyear ⊢
  -- the era and the year in it
  obtain ⟨era, yoe, rfl, hyoe⟩ : ∃ era yoe, y = era * 400 + yoe ∧ 0 ≤ yoe ∧ yoe < 400 :=
    ⟨y / 400, y % 400, by omega, by omega⟩
  have hera : (if 0 ≤ era * 400 + yoe then era * 400 + yoe else era * 400 + yoe - 399).tdiv 400 =
      era := (tdiv_shifted _ (by omega : (0 : Int) < 400)).trans (by omega)
  have hrest : era * 400 + yoe - era * 400 = yoe := by omega
  dsimp only
  rw [i64_bind (by omega), i64_bind (by omega), hera, i64_bind (by omega), hrest,
    i64_bind (by omega), tdiv_nonneg hyoe.1, tdiv_nonneg hyoe.1]
  iterate 2 rw [i64_bind (by omega)]
  rw [i64_bind (by omega), tdiv_nonneg (by omega)]
  iterate 8 rw [i64_bind (by omega)]
  exact i64_eq (by omega)

/-- **No step of `civil_from_days` overflows.** -/
theorem civilFromDays64_eq (h : CivilDate year month day) (hlow : -999999999 ≤ year)
    (hhigh : year ≤ 999999999) :
    civilFromDays64 (daysFromCivil year month day) = some (year, month, day) := by
  obtain ⟨era, doe, yoe, doy, mp, hdays, hdoe, hyoe, hyear, hfound, hdoy, hmp, hday, hmonth,
    hdays'⟩ := daysFromCivil_era h
  rw [hdays]
  have hera : (if 0 ≤ era * 146097 + doe then era * 146097 + doe
      else era * 146097 + doe - 146096).tdiv 146097 = era :=
    (tdiv_shifted _ (by omega : (0 : Int) < 146097)).trans (by omega)
  have hz : era * 146097 + doe - 719468 + 719468 = era * 146097 + doe := by omega
  have hrest : era * 146097 + doe - era * 146097 = doe := by omega
  unfold civilFromDays64
  rw [hz, i64_bind (by omega), i64_bind (by omega), hera, i64_bind (by omega), hrest,
    i64_bind (by omega)]
  iterate 3 rw [tdiv_nonneg hdoe.1]
  iterate 3 rw [i64_bind (by omega)]
  rw [tdiv_nonneg (by omega), hfound]
  dsimp only
  rw [tdiv_nonneg hyoe.1, tdiv_nonneg hyoe.1]
  iterate 5 rw [i64_bind (by omega)]
  rw [hdoy]
  iterate 3 rw [i64_bind (by omega)]
  rw [tdiv_nonneg (by omega), hmp, i64_bind (by omega), i64_bind (by omega),
    tdiv_nonneg (by omega), i64_bind (by omega), i64_bind (by omega), hday, i64_bind (by omega),
    hmonth, i64_bind (by omega)]
  refine congrArg some (Prod.ext ?_ (Prod.ext (Int.toNat_natCast month) (Int.toNat_natCast day)))
  omega

/-! ## 2. In the order of the days -/

/-- One date, year, month and day, is before another. -/
def Earlier (a b : Int × Nat × Nat) : Prop :=
  a.1 < b.1 ∨ a.1 = b.1 ∧ (a.2.1 < b.2.1 ∨ a.2.1 = b.2.1 ∧ a.2.2 < b.2.2)

theorem between_civil (h : CivilDate year month day) :
    LiesBetween monthStart (monthIndex year month) (daysFromCivil year month day) := by
  have hfirst := h.month_pos
  have hlast := h.month_le
  have hday := h.day_pos
  have hlength := h.day_le
  have hyear : yearOf (monthIndex year month) = year := by
    unfold yearOf monthIndex
    omega
  have hmonth : monthOf (monthIndex year month) = month := by
    unfold monthOf monthIndex
    omega
  rw [LiesBetween, monthStart_succ, monthStart, monthLength, hyear, hmonth,
    daysFromCivil_day year month day]
  omega

/-- **Earlier dates have smaller day numbers**, and the other way round. -/
theorem daysFromCivil_lt (h : CivilDate year month day) (h' : CivilDate year' month' day') :
    daysFromCivil year month day < daysFromCivil year' month' day' ↔
      Earlier (year, month, day) (year', month', day') := by
  have hafter := (between_civil h).2
  have hbefore := (between_civil h).1
  have hafter' := (between_civil h').2
  have hbefore' := (between_civil h').1
  have hmonth := h.month_pos
  have hlast := h.month_le
  have hmonth' := h'.month_pos
  have hlast' := h'.month_le
  unfold Earlier
  dsimp only
  rcases Int.lt_trichotomy (monthIndex year month) (monthIndex year' month') with hlt | heq | hgt
  · have hstart : monthStart (monthIndex year month + 1) ≤ monthStart (monthIndex year' month') :=
      strictMono_monthStart.monotone hlt
    unfold monthIndex at hlt
    exact iff_of_true (by omega) (by omega)
  · obtain ⟨rfl, rfl⟩ : year = year' ∧ month = month' := by
      unfold monthIndex at heq
      omega
    rw [daysFromCivil_day year month day, daysFromCivil_day year month day']
    omega
  · have hstart : monthStart (monthIndex year' month' + 1) ≤ monthStart (monthIndex year month) :=
      strictMono_monthStart.monotone hgt
    unfold monthIndex at hgt
    exact iff_of_false (by omega) (by omega)

/-- **The conversions between dates and day numbers**: over the years of a date they are inverse,
    they ascend, and no step of them overflows. -/
theorem calendarKernel :
    (∀ days, DayInRange days → ∃ year month day, CivilDate year month day ∧
      civilFromDays64 days = some (year, month, day) ∧ daysFromCivil64 year month day = some days) ∧
    (∀ year month day, CivilDate year month day → -999999999 ≤ year → year ≤ 999999999 →
      ∃ days, DayInRange days ∧ daysFromCivil64 year month day = some days ∧
        civilFromDays64 days = some (year, month, day)) ∧
    (∀ days days' date date', DayInRange days → DayInRange days' →
      civilFromDays64 days = some date → civilFromDays64 days' = some date' →
        (days < days' ↔ Earlier date date')) ∧
    ∀ year month day year' month' day', CivilDate year month day → CivilDate year' month' day' →
      -999999999 ≤ year → year ≤ 999999999 → -999999999 ≤ year' → year' ≤ 999999999 →
        ∀ days days', daysFromCivil64 year month day = some days →
          daysFromCivil64 year' month' day' = some days' →
            (days < days' ↔ Earlier (year, month, day) (year', month', day')) := by
  have hdays : ∀ days, DayInRange days → ∃ year month day, CivilDate year month day ∧
      civilFromDays64 days = some (year, month, day) ∧
        daysFromCivil64 year month day = some days ∧ daysFromCivil year month day = days := by
    intro days h
    obtain ⟨year, month, day, hdate, _, rfl, _⟩ := exists_civil days
    obtain ⟨hlow, hhigh⟩ := (dayInRange_civil hdate).mp h
    exact ⟨year, month, day, hdate, civilFromDays64_eq hdate hlow hhigh,
      daysFromCivil64_eq hdate hlow hhigh, rfl⟩
  refine ⟨fun days h => ?_, fun year month day h hlow hhigh => ?_,
    fun days days' date date' h h' hcivil hcivil' => ?_,
    fun year month day year' month' day' h h' hlow hhigh hlow' hhigh' days days' hd hd' => ?_⟩
  · obtain ⟨year, month, day, hdate, hcivil, hback, _⟩ := hdays days h
    exact ⟨year, month, day, hdate, hcivil, hback⟩
  · exact ⟨daysFromCivil year month day, (dayInRange_civil h).mpr ⟨hlow, hhigh⟩,
      daysFromCivil64_eq h hlow hhigh, civilFromDays64_eq h hlow hhigh⟩
  · obtain ⟨year, month, day, hdate, hfound, _, rfl⟩ := hdays days h
    obtain ⟨year', month', day', hdate', hfound', _, rfl⟩ := hdays days' h'
    cases hcivil.symm.trans hfound
    cases hcivil'.symm.trans hfound'
    exact daysFromCivil_lt hdate hdate'
  · cases hd.symm.trans (daysFromCivil64_eq h hlow hhigh)
    cases hd'.symm.trans (daysFromCivil64_eq h' hlow' hhigh')
    exact daysFromCivil_lt h h'

end Lithograph.Cypher
