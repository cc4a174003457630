/-
  File:      Lithograph/Query/Functions/Shift.lean
  Subject:   Adding durations to dates and to local dates with times
             (`query/functions/temporal.rs`).

  An unchecked operation that leaves the width of its numbers halts. Left out: times without a date,
  time zones and the dispatch.

  * **`shift_exact`**: a shift gives the exact value or is refused, and no number overflows.
-/
import Lithograph.Cypher.TemporalBuild
import Lithograph.Cypher.Value
import Lithograph.Storage.Decoding

namespace Lithograph.Query.Functions

open Library Storage Cypher

/-! ## 1. Numbers of a width -/

/-- Why a computation ends without a value. -/
inductive Halt where
  | failed (error : QueryError)
  | overflow
  deriving DecidableEq, Repr

/-- A computation with watched numbers. -/
abbrev Watched (α : Type) := Except Halt α

/-- `?` on a result. -/
def watch {α : Type} : QueryResult α → Watched α
  | .ok a => .ok a
  | .error e => .error (.failed e)

instance (n : Int) : Decidable (IsI64 n) := by
  unfold IsI64
  infer_instance

/-- A signed number of 128 bits. -/
def IsI128 (n : Int) : Prop := -2 ^ 127 ≤ n ∧ n < 2 ^ 127

instance (n : Int) : Decidable (IsI128 n) := by
  unfold IsI128
  infer_instance

/-- The result of an unchecked operation on numbers of 64 bits. -/
def i64 (n : Int) : Watched Int := if IsI64 n then .ok n else .error .overflow

/-- The result of an unchecked operation on numbers of 128 bits. -/
def i128 (n : Int) : Watched Int := if IsI128 n then .ok n else .error .overflow

/-- A checked operation or conversion, with the error it is mapped to. -/
def checkedI64 (n : Int) (message : String) : Watched Int :=
  if IsI64 n then .ok n else .error (.failed ⟨.type, message⟩)

def checkedI128 (n : Int) (message : String) : Watched Int :=
  if IsI128 n then .ok n else .error (.failed ⟨.type, message⟩)

variable {n days : Int}

theorem isI128_of_small (h : n.natAbs < 10 ^ 36) : IsI128 n := by
  unfold IsI128
  omega

theorem i128_ok (h : n.natAbs < 10 ^ 36) : i128 n = .ok n := if_pos (isI128_of_small h)

theorem checkedI128_ok (h : n.natAbs < 10 ^ 36) (message : String) :
    checkedI128 n message = .ok n := if_pos (isI128_of_small h)

theorem checkedI64_ok (h : IsI64 n) (message : String) : checkedI64 n message = .ok n := if_pos h

/-- The computation ends with an error and not with an overflow. -/
def Refused {α : Type} (result : Watched α) : Prop := ∃ error, result = .error (.failed error)

theorem Refused.bind {α β : Type} {x : Watched α} (h : Refused x) (f : α → Watched β) :
    Refused (x >>= f) := by
  obtain ⟨error, rfl⟩ := h
  exact ⟨error, rfl⟩

theorem checkedI64_refused (h : ¬ IsI64 n) (message : String) :
    Refused (checkedI64 n message) := ⟨_, if_neg h⟩

theorem watch_refused {α : Type} {x : ValueResult α} (h : ∀ a, x ≠ .ok a) :
    Refused (watch (ofValue x)) := by
  cases x with
  | ok a => exact absurd rfl (h a)
  | error e => exact ⟨_, rfl⟩

/-! ## 2. The shifts -/

/-- `civil_from_days`; the numbers after the first sum are no larger than it. -/
def civilOf (days : Int) : Watched (Int × Nat × Nat) := do
  let _ ← i64 (days + 719468)
  pure (civilFromDays days)

/-- `DateValue::from_days`. -/
def dateFromDays (days : Int) : Watched DateValue := do
  let _ ← civilOf days
  watch (ofValue (DateValue.fromDays days))

/-- `LocalDateTimeValue::from_components`. -/
def localDateTimeFrom (days : Int) (nanoseconds : Nat) : Watched LocalDateTimeValue := do
  let _ ← civilOf days
  watch (ofValue (LocalDateTimeValue.fromComponents days nanoseconds))

def shiftDaysByMonths (days months : Int) : Watched Int := do
  let date ← civilOf days
  let product ← checkedI128 (date.1 * 12) "date arithmetic overflow"
  let sum ← checkedI128 (product + ((date.2.1 : Int) - 1)) "date arithmetic overflow"
  let total ← checkedI128 (sum + months) "date arithmetic overflow"
  let year ← checkedI64 (total / 12) "date arithmetic overflow"
  let month := (total % 12 + 1).toNat
  let day := min date.2.2 (daysInMonth year month)
  let value ← watch (ofValue (DateValue.fromComponents year month day))
  pure value.days

def shiftDate (value : DateValue) (months days seconds nanoseconds : Int) : Watched DateValue := do
  let shifted ← shiftDaysByMonths value.days months
  let product ← i128 (seconds * 1000000000)
  let timeNanoseconds ← i128 (product + nanoseconds)
  let timeDays := timeNanoseconds.tdiv nanosPerDay
  let sum ← checkedI128 (days + timeDays) "date arithmetic overflow"
  let days ← checkedI64 sum "date arithmetic overflow"
  let shifted ← checkedI64 (shifted + days) "date arithmetic overflow"
  dateFromDays shifted

/-- `shift_local_datetime`. -/
def shiftLocalDateTime (value : LocalDateTimeValue) (months days seconds nanoseconds : Int) :
    Watched LocalDateTimeValue := do
  let shifted ← shiftDaysByMonths value.days months
  let date ← checkedI64 (shifted + days) "datetime arithmetic overflow"
  let dateNanoseconds ← i128 (date * nanosPerDay)
  let withTime ← i128 (dateNanoseconds + value.nanoseconds)
  let product ← i128 (seconds * 1000000000)
  let withSeconds ← i128 (withTime + product)
  let total ← i128 (withSeconds + nanoseconds)
  let days ← checkedI64 (total / nanosPerDay) "datetime arithmetic overflow"
  let time := (total % nanosPerDay).toNat
  localDateTimeFrom days time

def checkedNegate (value : Int) : Watched Int := checkedI64 (-value) "duration arithmetic overflow"

/-- The components that `shift_temporal` shifts by. -/
def signedComponents (duration : DurationValue) (subtract : Bool) : Watched DurationValue :=
  if subtract then do
    let months ← checkedNegate duration.months
    let days ← checkedNegate duration.days
    let seconds ← checkedNegate duration.seconds
    let nanoseconds ← checkedNegate duration.nanoseconds
    pure ⟨months, days, seconds, nanoseconds⟩
  else .ok duration

/-- `shift_temporal` of a date. -/
def shiftTemporalDate (value : DateValue) (duration : DurationValue) (subtract : Bool) :
    Watched DateValue := do
  let signed ← signedComponents duration subtract
  shiftDate value signed.months signed.days signed.seconds signed.nanoseconds

/-- `shift_temporal` of a local date with a time. -/
def shiftTemporalLocalDateTime (value : LocalDateTimeValue) (duration : DurationValue)
    (subtract : Bool) : Watched LocalDateTimeValue := do
  let signed ← signedComponents duration subtract
  shiftLocalDateTime value signed.months signed.days signed.seconds signed.nanoseconds

/-! ## 3. Months -/

/-- The same day of another month, or its last. -/
def monthShift (days months : Int) : Int :=
  let date := civilFromDays days
  let month := monthIndex date.1 date.2.1 + months
  monthStart month + (min date.2.2 (monthLength month) : Nat) - 1

theorem civilOf_ok (h : DayInRange days) : civilOf days = .ok (civilFromDays days) := by
  have hrange := dayInRange_iff.mp h
  have hwidth : IsI64 (days + 719468) := by
    unfold IsI64
    omega
  rw [civilOf, i64, if_pos hwidth]
  rfl

theorem shiftDaysByMonths_run {year : Int} {month day : Nat} {months : Int}
    (hdate : CivilDate year month day) (hyear : YearInRange year) (hmonths : IsI64 months) :
    shiftDaysByMonths (daysFromCivil year month day) months = (do
      let value ← watch (ofValue (DateValue.fromComponents
        (yearOf (monthIndex year month + months)) (monthOf (monthIndex year month + months))
        (min day (monthLength (monthIndex year month + months)))))
      pure value.days) := by
  have hin : DayInRange (daysFromCivil year month day) := (dayInRange_civil hdate).mpr hyear
  have htotal : year * 12 + ((month : Int) - 1) + months = monthIndex year month + months := by
    unfold monthIndex
    omega
  have hhigh := hdate.month_le
  unfold YearInRange at hyear
  unfold IsI64 at hmonths
  have hwidth : IsI64 ((monthIndex year month + months) / 12) := by
    unfold monthIndex IsI64
    omega
  rw [shiftDaysByMonths, civilOf_ok hin, ok_bind, civilFromDays_daysFromCivil hdate]
  dsimp only
  rw [checkedI128_ok (by omega), ok_bind, checkedI128_ok (by omega), ok_bind,
    checkedI128_ok (by omega), ok_bind, htotal, checkedI64_ok hwidth, ok_bind]
  rfl

/-- **A shift by months gives the shifted day where its year is in range, else an error.** -/
theorem shiftDaysByMonths_eq {months : Int} (h : DayInRange days) (hmonths : IsI64 months) :
    (DayInRange (monthShift days months) →
        shiftDaysByMonths days months = .ok (monthShift days months)) ∧
      (¬ DayInRange (monthShift days months) → Refused (shiftDaysByMonths days months)) := by
  obtain ⟨year, month, day, hdate, hday, rfl, hcivil⟩ := exists_civil days
  have hyear := (dayInRange_civil hdate).mp h
  have hpos := hdate.day_pos
  have hbound : (yearOf (monthIndex year month + months)).natAbs < 10 ^ 20 := by
    have hhigh := hdate.month_le
    unfold IsI64 at hmonths
    unfold yearOf monthIndex
    omega
  rw [shiftDaysByMonths_run hdate hyear hmonths, monthShift, hcivil]
  generalize monthIndex year month + months = n at hbound ⊢
  have hlength := monthLength_bounds n
  have hshifted : CivilDate (yearOf n) (monthOf n) (min day (monthLength n)) :=
    civilDate_month ⟨by omega, Nat.min_le_right _ _⟩
  have hdays : monthStart n + ((min day (monthLength n) : Nat) : Int) - 1 =
      daysFromCivil (yearOf n) (monthOf n) (min day (monthLength n)) :=
    (daysFromCivil_day _ _ _).symm
  have hbuilt := @DateValue.fromComponents_iff _ _ _ hshifted (by omega) hbound
  rw [hdays, dayInRange_civil hshifted]
  constructor
  · intro hrange
    rw [hbuilt.mpr ⟨rfl, hrange⟩, dateOn_civil hshifted]
    rfl
  · intro hrange
    exact (watch_refused fun value hvalue => hrange (hbuilt.mp hvalue).2).bind _

/-! ## 4. The exact value -/

/-- The components of a duration are numbers of 64 bits. -/
def Fits (duration : DurationValue) : Prop :=
  IsI64 duration.months ∧ IsI64 duration.days ∧ IsI64 duration.seconds ∧ IsI64 duration.nanoseconds

instance (duration : DurationValue) : Decidable (Fits duration) := by
  unfold Fits
  infer_instance

/-- What is added: the duration, or its opposite. -/
def signed (duration : DurationValue) (subtract : Bool) : DurationValue :=
  if subtract then
    ⟨-duration.months, -duration.days, -duration.seconds, -duration.nanoseconds⟩
  else duration

/-- The months, then the days, then the whole days of the time part. -/
def dateShift (days : Int) (duration : DurationValue) : Int :=
  monthShift days duration.months + duration.days +
    (duration.seconds * 1000000000 + duration.nanoseconds).tdiv nanosPerDay

/-- The months, then the days, then the time part. -/
def dateTimeShift (days : Int) (nanoseconds : Nat) (duration : DurationValue) : Int × Nat :=
  let total := (monthShift days duration.months + duration.days) * nanosPerDay + nanoseconds +
    (duration.seconds * 1000000000 + duration.nanoseconds)
  (total / nanosPerDay, (total % nanosPerDay).toNat)

/-- A shift to the day ends with the value where the day is in range, and is refused where it is
    not. Nothing is said of the years -999 to -1 and of the last 719468 days that a number of 64
    bits has. -/
def Exact {α : Type} (result : Watched α) (day : Int) (value : α) : Prop :=
  (DayInRange day → ¬ ShortNegativeDay day → result = .ok value) ∧
    (¬ DayInRange day → day + 719468 < 2 ^ 63 ∨ 2 ^ 63 ≤ day → Refused result)

theorem signedComponents_eq (duration : DurationValue) (subtract : Bool) (h : Fits duration) :
    (Fits (signed duration subtract) →
        signedComponents duration subtract = .ok (signed duration subtract)) ∧
      (¬ Fits (signed duration subtract) → Refused (signedComponents duration subtract)) := by
  unfold signed signedComponents
  cases subtract with
  | false => exact ⟨fun _ => rfl, fun hn => absurd h hn⟩
  | true =>
    rw [if_pos rfl, if_pos rfl]
    constructor
    · intro hsigned
      obtain ⟨hmonths, hdays, hseconds, hnanoseconds⟩ := hsigned
      rw [checkedNegate, checkedI64_ok hmonths, ok_bind, checkedNegate, checkedI64_ok hdays,
        ok_bind, checkedNegate, checkedI64_ok hseconds, ok_bind, checkedNegate,
        checkedI64_ok hnanoseconds]
      rfl
    · intro hsigned
      by_cases hmonths : IsI64 (-duration.months)
      · rw [checkedNegate, checkedI64_ok hmonths, ok_bind]
        by_cases hdays : IsI64 (-duration.days)
        · rw [checkedNegate, checkedI64_ok hdays, ok_bind]
          by_cases hseconds : IsI64 (-duration.seconds)
          · rw [checkedNegate, checkedI64_ok hseconds, ok_bind]
            have hnanoseconds : ¬ IsI64 (-duration.nanoseconds) :=
              fun h => hsigned ⟨hmonths, hdays, hseconds, h⟩
            exact (checkedI64_refused hnanoseconds _).bind _
          · exact (checkedI64_refused hseconds _).bind _
        · exact (checkedI64_refused hdays _).bind _
      · exact (checkedI64_refused hmonths _).bind _

theorem civilOf_bounded (hlow : -2 ^ 63 ≤ days) (hhigh : days + 719468 < 2 ^ 63) :
    civilOf days = .ok (civilFromDays days) := by
  have hwidth : IsI64 (days + 719468) := by
    unfold IsI64
    omega
  rw [civilOf, i64, if_pos hwidth]
  rfl

theorem dateFromDays_exact (h : IsI64 days) : Exact (dateFromDays days) days (dateOn days) := by
  have hwidth := h
  unfold IsI64 at hwidth
  have hbuilt := @DateValue.fromDays_iff days (by omega)
  constructor
  · intro hrange hlong
    rw [dateFromDays, civilOf_ok hrange, ok_bind, hbuilt.mpr ⟨rfl, hrange, hlong⟩]
    rfl
  · intro hrange hhigh
    rw [dateFromDays, civilOf_bounded hwidth.1 (by omega), ok_bind]
    exact watch_refused fun value hvalue => hrange (hbuilt.mp hvalue).2.1

theorem localDateTimeFrom_exact {nanoseconds : Nat} (h : IsI64 days)
    (htime : nanoseconds < dayNanoseconds) :
    Exact (localDateTimeFrom days nanoseconds) days (dateTimeOn days nanoseconds) := by
  have hwidth := h
  unfold IsI64 at hwidth
  have hbuilt := @LocalDateTimeValue.fromComponents_iff days nanoseconds (by omega) htime
  constructor
  · intro hrange hlong
    rw [localDateTimeFrom, civilOf_ok hrange, ok_bind, hbuilt.mpr ⟨rfl, hrange, hlong⟩]
    rfl
  · intro hrange hhigh
    rw [localDateTimeFrom, civilOf_bounded hwidth.1 (by omega), ok_bind]
    exact watch_refused fun value hvalue => hrange (hbuilt.mp hvalue).2.1

theorem exact_of_refused {α : Type} {result : Watched α} {day : Int} {value : α}
    (h : Refused result) (hday : ¬ DayInRange day) : Exact result day value :=
  ⟨fun hrange => absurd hrange hday, fun _ _ => h⟩

/-- **A shift is exact where the shift by months alone is in range.** -/
theorem shiftDate_exact {value : DateValue} {duration : DurationValue}
    (hvalue : DayInRange value.days) (hfits : Fits duration)
    (hmonths : DayInRange (monthShift value.days duration.months)) :
    Exact (shiftDate value duration.months duration.days duration.seconds duration.nanoseconds)
      (dateShift value.days duration) (dateOn (dateShift value.days duration)) := by
  obtain ⟨hfitsMonths, hdays, hseconds, hnanoseconds⟩ := hfits
  have hshift := (shiftDaysByMonths_eq hvalue hfitsMonths).1 hmonths
  have hnear := dayInRange_iff.mp hmonths
  have htdiv := Int.natAbs_tdiv_le_natAbs
    (duration.seconds * 1000000000 + duration.nanoseconds) nanosPerDay
  unfold IsI64 at hdays hseconds hnanoseconds
  rw [shiftDate, hshift, ok_bind, i128_ok (by omega), ok_bind, i128_ok (by omega), ok_bind]
  dsimp only
  rw [dateShift]
  generalize (duration.seconds * 1000000000 + duration.nanoseconds).tdiv nanosPerDay = timeDays
    at htdiv ⊢
  generalize monthShift value.days duration.months = shifted at hnear ⊢
  rw [checkedI128_ok (by omega), ok_bind]
  by_cases hsum : IsI64 (duration.days + timeDays)
  · rw [checkedI64_ok hsum, ok_bind]
    by_cases hday : IsI64 (shifted + (duration.days + timeDays))
    · rw [checkedI64_ok hday, ok_bind, ← Int.add_assoc]
      exact dateFromDays_exact (by rwa [Int.add_assoc])
    · refine exact_of_refused ((checkedI64_refused hday _).bind _) ?_
      rw [dayInRange_iff]
      unfold IsI64 at hday
      omega
  · refine exact_of_refused ((checkedI64_refused hsum _).bind _) ?_
    rw [dayInRange_iff]
    unfold IsI64 at hsum
    omega

/-- **So is that of a date with a time.** -/
theorem shiftLocalDateTime_exact {value : LocalDateTimeValue} {duration : DurationValue}
    (hvalue : DayInRange value.days) (htime : value.nanoseconds < dayNanoseconds)
    (hfits : Fits duration) (hmonths : DayInRange (monthShift value.days duration.months)) :
    Exact (shiftLocalDateTime value duration.months duration.days duration.seconds
        duration.nanoseconds)
      (dateTimeShift value.days value.nanoseconds duration).1
      (dateTimeOn (dateTimeShift value.days value.nanoseconds duration).1
        (dateTimeShift value.days value.nanoseconds duration).2) := by
  obtain ⟨hfitsMonths, hdays, hseconds, hnanoseconds⟩ := hfits
  have hshift := (shiftDaysByMonths_eq hvalue hfitsMonths).1 hmonths
  have hnear := dayInRange_iff.mp hmonths
  have hperDay : nanosPerDay = 86400000000000 := rfl
  have hday : dayNanoseconds = 86400000000000 := rfl
  unfold IsI64 at hdays hseconds hnanoseconds
  rw [shiftLocalDateTime, hshift, ok_bind, dateTimeShift]
  rw [hperDay]
  generalize monthShift value.days duration.months = shifted at hnear ⊢
  by_cases hdate : IsI64 (shifted + duration.days)
  · have hwidth := hdate
    unfold IsI64 at hwidth
    have htotal : (shifted + duration.days) * 86400000000000 + value.nanoseconds +
        duration.seconds * 1000000000 + duration.nanoseconds =
        (shifted + duration.days) * 86400000000000 + value.nanoseconds +
          (duration.seconds * 1000000000 + duration.nanoseconds) := by omega
    rw [checkedI64_ok hdate, ok_bind, i128_ok (by omega), ok_bind, i128_ok (by omega), ok_bind,
      i128_ok (by omega), ok_bind, i128_ok (by omega), ok_bind, i128_ok (by omega), ok_bind, htotal]
    generalize (shifted + duration.days) * 86400000000000 + value.nanoseconds +
      (duration.seconds * 1000000000 + duration.nanoseconds) = total
    by_cases hresult : IsI64 (total / 86400000000000)
    · rw [checkedI64_ok hresult, ok_bind]
      exact localDateTimeFrom_exact hresult (by rw [hday]; omega)
    · refine exact_of_refused ((checkedI64_refused hresult _).bind _) ?_
      rw [dayInRange_iff]
      unfold IsI64 at hresult
      omega
  · refine exact_of_refused ((checkedI64_refused hdate _).bind _) ?_
    rw [dayInRange_iff]
    unfold IsI64 at hdate
    omega

/-- What a shift does: it is refused where the opposite of a component has no number of 64 bits or
    where the shift by months alone leaves the range, and is exact elsewhere. -/
def Shifts {α : Type} (result : Watched α) (days : Int) (duration : DurationValue)
    (day : Int) (value : α) : Prop :=
  (¬ (Fits duration ∧ DayInRange (monthShift days duration.months)) → Refused result) ∧
    (Fits duration → DayInRange (monthShift days duration.months) → Exact result day value)

/-- **Adding a duration to a date or to a date with a time, or subtracting it, gives the exact
    value or is refused.** -/
theorem shift_exact (duration : DurationValue) (subtract : Bool) (hduration : Fits duration) :
    (∀ text value, DateValue.parse text = .ok value →
      Shifts (shiftTemporalDate value duration subtract) value.days (signed duration subtract)
        (dateShift value.days (signed duration subtract))
        (dateOn (dateShift value.days (signed duration subtract)))) ∧
    (∀ text value, LocalDateTimeValue.parse text = .ok value →
      Shifts (shiftTemporalLocalDateTime value duration subtract) value.days
        (signed duration subtract)
        (dateTimeShift value.days value.nanoseconds (signed duration subtract)).1
        (dateTimeOn (dateTimeShift value.days value.nanoseconds (signed duration subtract)).1
          (dateTimeShift value.days value.nanoseconds (signed duration subtract)).2)) := by
  obtain ⟨hfit, hunfit⟩ := signedComponents_eq duration subtract hduration
  generalize signed duration subtract = shift at hfit hunfit ⊢
  constructor
  · intro text value hparse
    obtain ⟨_, hvalue⟩ := date_of_parse hparse
    constructor
    · intro hnot
      by_cases hfits : Fits shift
      · have hmonths : ¬ DayInRange (monthShift value.days shift.months) :=
          fun h => hnot ⟨hfits, h⟩
        rw [shiftTemporalDate, hfit hfits, ok_bind, shiftDate]
        exact ((shiftDaysByMonths_eq hvalue hfits.1).2 hmonths).bind _
      · exact (hunfit hfits).bind _
    · intro hfits hmonths
      rw [shiftTemporalDate, hfit hfits, ok_bind]
      exact shiftDate_exact hvalue hfits hmonths
  · intro text value hparse
    obtain ⟨_, hvalue, htime⟩ := dateTime_of_parse hparse
    constructor
    · intro hnot
      by_cases hfits : Fits shift
      · have hmonths : ¬ DayInRange (monthShift value.days shift.months) :=
          fun h => hnot ⟨hfits, h⟩
        rw [shiftTemporalLocalDateTime, hfit hfits, ok_bind, shiftLocalDateTime]
        exact ((shiftDaysByMonths_eq hvalue hfits.1).2 hmonths).bind _
      · exact (hunfit hfits).bind _
    · intro hfits hmonths
      rw [shiftTemporalLocalDateTime, hfit hfits, ok_bind]
      exact shiftLocalDateTime_exact hvalue htime hfits hmonths

/-- A month after the last day of January 2024 is the leap day. -/
theorem shift_exact_leap_day :
    shiftTemporalDate ⟨"2024-01-31".toList, 19753⟩ ⟨1, 0, 0, 0⟩ false =
      .ok ⟨"2024-02-29".toList, 19782⟩ :=
  (((shift_exact ⟨1, 0, 0, 0⟩ false (by decide)).1 "2024-01-31".toList
    ⟨"2024-01-31".toList, 19753⟩ (by decide)).2 (by decide) (by decide)).1 (by decide) (by decide)

/-- The month after the last date is out of range, though the days lead back into it. -/
theorem shift_refused_between :
    DateValue.parse "+999999999-12-31".toList = .ok ⟨"+999999999-12-31".toList, 365241780471⟩ ∧
      dateShift 365241780471 ⟨1, -31, 0, 0⟩ = 365241780471 ∧
      shiftTemporalDate ⟨"+999999999-12-31".toList, 365241780471⟩ ⟨1, -31, 0, 0⟩ false =
        .error (.failed ⟨.type, "Date year is outside the Cypher range"⟩) := by
  decide

end Lithograph.Query.Functions
