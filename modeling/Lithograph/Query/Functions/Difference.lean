/-
  File:      Lithograph/Query/Functions/Difference.lean
  Subject:   The duration between two dates or two local dates with times
             (`query/functions/temporal.rs`).

  The difference counts whole months first. Left out: points in time zones and times without a date.

  * **`difference_added`**: added back it gives the second point, unless its year is one of -999 to
    -1.
-/
import Lithograph.Query.Functions.Shift

namespace Lithograph.Query.Functions

open Library Storage Cypher

/-! ## 1. Differences -/

def durationFromI128 (months days seconds nanoseconds : Int) : Watched DurationValue := do
  let seconds ← checkedI128 (seconds + nanoseconds / 1000000000) "duration arithmetic overflow"
  let nanoseconds := nanoseconds % 1000000000
  let months ← checkedI64 months "duration arithmetic overflow"
  let days ← checkedI64 days "duration arithmetic overflow"
  let seconds ← checkedI64 seconds "duration arithmetic overflow"
  let nanoseconds ← checkedI64 nanoseconds "duration arithmetic overflow"
  pure ⟨months, days, seconds, nanoseconds⟩

structure TemporalPoint where
  days : Int
  nanoseconds : Nat
  instantNanoseconds : Option Int
  offsetSeconds : Option Int
  hasDate : Bool

/-- `temporal_point` of a date or of a local date with a time, where the counterpart has no zone. -/
def temporalPointLocal (days : Int) (nanoseconds : Nat) : TemporalPoint :=
  ⟨days, nanoseconds, none, none, true⟩

/-- `i128::from(days) * NANOS_PER_DAY + i128::from(nanoseconds)`. -/
def localNanoseconds (days : Int) (nanoseconds : Nat) : Watched Int := do
  let product ← i128 (days * nanosPerDay)
  i128 (product + nanoseconds)

def elapsedNanoseconds (start stop : TemporalPoint) : Watched Int :=
  match start.instantNanoseconds, stop.instantNanoseconds with
  | some first, some last => i128 (last - first)
  | _, _ => do
    let days ← i128 (stop.days - start.days)
    let product ← i128 (days * nanosPerDay)
    let sum ← i128 (product + stop.nanoseconds)
    i128 (sum - start.nanoseconds)

def differenceInSeconds (start stop : TemporalPoint) : Watched DurationValue := do
  let elapsed ← elapsedNanoseconds start stop
  durationFromI128 0 0 (elapsed.tdiv 1000000000) (elapsed.tmod 1000000000)

def differenceInDays (start stop : TemporalPoint) : Watched DurationValue := do
  let elapsed ← elapsedNanoseconds start stop
  durationFromI128 0 (elapsed.tdiv nanosPerDay) 0 0

def wholeMonthsBetween (start stop : TemporalPoint) : Watched Int := do
  let first ← civilOf start.days
  let last ← civilOf stop.days
  let years ← i64 (last.1 - first.1)
  let product ← i128 (years * 12)
  let sum ← i128 (product + last.2.1)
  let raw ← i128 (sum - first.2.1)
  let months ← checkedI64 raw "duration arithmetic overflow"
  let shiftedDays ← shiftDaysByMonths start.days months
  let shiftedLocal ← localNanoseconds shiftedDays start.nanoseconds
  let shifted ← match start.offsetSeconds with
    | none => pure shiftedLocal
    | some offset => i128 (shiftedLocal - offset * 1000000000)
  let targetLocal ← localNanoseconds stop.days stop.nanoseconds
  let target := stop.instantNanoseconds.getD targetLocal
  if 0 < months ∧ target < shifted then i64 (months - 1)
  else if months < 0 ∧ shifted < target then i64 (months + 1)
  else pure months

def differenceLogically (start stop : TemporalPoint) : Watched DurationValue :=
  if !start.hasDate || !stop.hasDate then differenceInSeconds start stop
  else do
    let months ← wholeMonthsBetween start stop
    let shiftedDays ← shiftDaysByMonths start.days months
    let shiftedLocal ← localNanoseconds shiftedDays start.nanoseconds
    let targetLocal ← localNanoseconds stop.days stop.nanoseconds
    let remainder ← match start.offsetSeconds, stop.instantNanoseconds with
      | some offset, some target => do
        let shifted ← i128 (shiftedLocal - offset * 1000000000)
        i128 (target - shifted)
      | _, _ => i128 (targetLocal - shiftedLocal)
    durationFromI128 months (remainder.tdiv nanosPerDay)
      ((remainder.tmod nanosPerDay).tdiv 1000000000) (remainder.tmod 1000000000)

/-! ## 2. Months -/

/-- The nanoseconds of a local date with a time. -/
def instant (days : Int) (nanoseconds : Nat) : Int := days * nanosPerDay + nanoseconds

variable {days days' : Int} {nanoseconds : Nat}

theorem between_monthShift {n : Int} (h : LiesBetween monthStart n days) (months : Int) :
    LiesBetween monthStart (n + months) (monthShift days months) := by
  have hlow := h.1
  have hlength := monthLength_bounds (n + months)
  have hindex : monthIndex (yearOf n) (monthOf n) = n := monthIndex_eq n
  rw [monthShift, civilFromDays_month h]
  dsimp only
  rw [hindex, LiesBetween, monthStart_succ]
  omega

theorem monthShift_zero (days : Int) : monthShift days 0 = days := by
  obtain ⟨n, hn⟩ := exists_month days
  have hlow := hn.1
  have hhigh := hn.2
  rw [monthStart_succ] at hhigh
  rw [monthShift, civilFromDays_month hn]
  dsimp only
  rw [monthIndex_eq, Int.add_zero]
  omega

theorem strictMono_monthShift (days : Int) : StrictMono (monthShift days) := by
  obtain ⟨n, hn⟩ := exists_month days
  intro a b hab
  have ha := between_monthShift hn a
  have hb := between_monthShift hn b
  have hle := strictMono_monthStart.monotone (by omega : n + a + 1 ≤ n + b)
  have hend := ha.2
  have hstart := hb.1
  omega

theorem strictMono_instant (days : Int) (nanoseconds : Nat) :
    StrictMono fun months => instant (monthShift days months) nanoseconds := by
  intro a b hab
  have hlt := strictMono_monthShift days hab
  unfold instant nanosPerDay
  dsimp only
  omega

theorem dayInRange_month {n : Int} (h : LiesBetween monthStart n days)
    (h' : LiesBetween monthStart n days') (hin : DayInRange days) : DayInRange days' := by
  rw [DayInRange, civilFromDays_month h] at hin
  rw [DayInRange, civilFromDays_month h']
  exact hin

theorem localNanoseconds_ok (h : DayInRange days) (htime : nanoseconds < dayNanoseconds) :
    localNanoseconds days nanoseconds = .ok (instant days nanoseconds) := by
  have hday := dayInRange_iff.mp h
  unfold dayNanoseconds at htime
  rw [localNanoseconds, i128_ok (by unfold nanosPerDay; omega), ok_bind,
    i128_ok (by unfold nanosPerDay; omega), instant]

theorem instant_lt {nanoseconds' : Nat} (h : days < days') (htime : nanoseconds < dayNanoseconds) :
    instant days nanoseconds < instant days' nanoseconds' := by
  unfold instant nanosPerDay
  unfold dayNanoseconds at htime
  omega

theorem le_of_instant_le {nanoseconds' : Nat}
    (h : instant days nanoseconds ≤ instant days' nanoseconds')
    (htime : nanoseconds' < dayNanoseconds) : days ≤ days' :=
  not_lt.mp fun hlt => absurd (instant_lt hlt htime) (not_lt.mpr h)

section

variable {start stop : Int} {startTime stopTime : Nat}

/-- **The whole months are the most that do not pass the second point.** -/
theorem wholeMonthsBetween_most (hstart : DayInRange start) (hstop : DayInRange stop)
    (hstartTime : startTime < dayNanoseconds) (hstopTime : stopTime < dayNanoseconds) :
    ∃ months, wholeMonthsBetween (temporalPointLocal start startTime)
        (temporalPointLocal stop stopTime) = .ok months ∧
      Most (fun months => instant (monthShift start months) startTime) (instant stop stopTime)
        months ∧
      DayInRange (monthShift start months) ∧ months.natAbs < 10 ^ 18 := by
  obtain ⟨a, ha⟩ := exists_month start
  obtain ⟨b, hb⟩ := exists_month stop
  have hascending := strictMono_instant start startTime
  have hshift := between_monthShift ha
  have hnear := dayInRange_iff.mp hstart
  have hfar := dayInRange_iff.mp hstop
  have hfirst := hstart
  have hlast := hstop
  rw [DayInRange, civilFromDays_month ha] at hfirst
  rw [DayInRange, civilFromDays_month hb] at hlast
  have hbounds := monthOf_bounds a
  have hbounds' := monthOf_bounds b
  have hraw : (yearOf b - yearOf a) * 12 + monthOf b - monthOf a = b - a := by
    have hindex := monthIndex_eq a
    have hindex' := monthIndex_eq b
    unfold monthIndex at hindex hindex'
    omega
  have hwidth : IsI64 (b - a) := by
    unfold IsI64
    omega
  have hyears : IsI64 (yearOf b - yearOf a) := by
    unfold IsI64
    omega
  -- the months between the calendar months lead into the month of the second point
  have hinto : LiesBetween monthStart b (monthShift start (b - a)) := by
    have h := hshift (b - a)
    rwa [show a + (b - a) = b by omega] at h
  have hin := dayInRange_month hb hinto hstop
  have hmonths := (shiftDaysByMonths_eq hstart hwidth).1 hin
  have hrun : wholeMonthsBetween (temporalPointLocal start startTime)
      (temporalPointLocal stop stopTime) =
      if 0 < b - a ∧ instant stop stopTime < instant (monthShift start (b - a)) startTime
      then i64 (b - a - 1)
      else if b - a < 0 ∧ instant (monthShift start (b - a)) startTime < instant stop stopTime
      then i64 (b - a + 1) else pure (b - a) := by
    rw [wholeMonthsBetween]
    unfold temporalPointLocal
    rw [civilOf_ok hstart, ok_bind, civilOf_ok hstop, ok_bind, civilFromDays_month ha,
      civilFromDays_month hb]
    dsimp only
    rw [i64, if_pos hyears, ok_bind, i128_ok (by omega), ok_bind, i128_ok (by omega), ok_bind,
      i128_ok (by omega), ok_bind, hraw, checkedI64_ok hwidth, ok_bind, hmonths, ok_bind,
      localNanoseconds_ok hin hstartTime, ok_bind, pure_bind, localNanoseconds_ok hstop hstopTime,
      ok_bind]
    rfl
  have hbefore : monthShift start (b - a - 1) < stop := by
    have h := (hshift (b - a - 1)).2
    rw [show a + (b - a - 1) + 1 = b by omega] at h
    exact lt_of_lt_of_le h hb.1
  have hafter : stop < monthShift start (b - a + 1) := by
    have h := (hshift (b - a + 1)).1
    rw [show a + (b - a + 1) = b + 1 by omega] at h
    exact lt_of_lt_of_le hb.2 h
  rw [hrun]
  split
  · next hpassed =>
    refine ⟨b - a - 1, if_pos (by unfold IsI64; omega), ?_, ?_, by omega⟩
    · refine most_forward hascending (by omega) (le_of_lt (instant_lt hbefore hstartTime)) ?_
      rw [Int.sub_add_cancel]
      exact hpassed.2
    · have hmono := (strictMono_monthShift start).monotone (by omega : 0 ≤ b - a - 1)
      rw [monthShift_zero] at hmono
      exact dayInRange_iff.mpr ⟨by omega, by omega⟩
  · next hnot =>
    split
    · next hpassed =>
      refine ⟨b - a + 1, if_pos (by unfold IsI64; omega), ?_, ?_, by omega⟩
      · refine most_backward hascending (by omega) (le_of_lt (instant_lt hafter hstopTime)) ?_
        rw [Int.add_sub_cancel]
        exact hpassed.2
      · have hmono := (strictMono_monthShift start).monotone (by omega : b - a + 1 ≤ 0)
        rw [monthShift_zero] at hmono
        exact dayInRange_iff.mpr ⟨by omega, by omega⟩
    · next hnot' =>
      refine ⟨b - a, rfl, ?_, hin, by omega⟩
      have hforward : 0 ≤ b - a →
          instant (monthShift start (b - a)) startTime ≤ instant stop stopTime →
          Most (fun months => instant (monthShift start months) startTime)
            (instant stop stopTime) (b - a) :=
        fun hk hle => most_forward hascending hk hle (instant_lt hafter hstopTime)
      have hbackward : b - a ≤ 0 →
          instant stop stopTime ≤ instant (monthShift start (b - a)) startTime →
          Most (fun months => instant (monthShift start months) startTime)
            (instant stop stopTime) (b - a) :=
        fun hk hle => most_backward hascending hk hle (instant_lt hbefore hstartTime)
      obtain hle | hle := le_total (instant (monthShift start (b - a)) startTime)
        (instant stop stopTime)
      · obtain hpos | hneg := Int.lt_or_le (b - a) 0
        · exact hbackward (by omega) (not_lt.mp fun h => hnot' ⟨hpos, h⟩)
        · exact hforward hneg hle
      · obtain hpos | hneg := Int.lt_or_le 0 (b - a)
        · exact hforward (by omega) (not_lt.mp fun h => hnot ⟨hpos, h⟩)
        · exact hbackward hneg hle

end

/-! ## 3. Durations -/

/-- The time part of a duration. -/
def timePart (duration : DurationValue) : Int :=
  duration.seconds * 1000000000 + duration.nanoseconds

theorem durationFromI128_ok {months seconds nanoseconds : Int} (hmonths : months.natAbs < 10 ^ 18)
    (hdays : days.natAbs < 10 ^ 18) (hseconds : seconds.natAbs < 10 ^ 18)
    (hnanoseconds : nanoseconds.natAbs < 10 ^ 18) :
    ∃ duration, durationFromI128 months days seconds nanoseconds = .ok duration ∧ Fits duration ∧
      duration.months = months ∧ duration.days = days ∧
        timePart duration = seconds * 1000000000 + nanoseconds := by
  have hm : IsI64 months := by unfold IsI64; omega
  have hd : IsI64 days := by unfold IsI64; omega
  have hs : IsI64 (seconds + nanoseconds / 1000000000) := by unfold IsI64; omega
  have hn : IsI64 (nanoseconds % 1000000000) := by unfold IsI64; omega
  refine ⟨⟨months, days, seconds + nanoseconds / 1000000000, nanoseconds % 1000000000⟩, ?_,
    ⟨hm, hd, hs, hn⟩, rfl, rfl, ?_⟩
  · rw [durationFromI128, checkedI128_ok (by omega), ok_bind, checkedI64_ok hm, ok_bind,
      checkedI64_ok hd, ok_bind, checkedI64_ok hs, ok_bind, checkedI64_ok hn]
    rfl
  · unfold timePart
    dsimp only
    omega

theorem tdiv_parts (n : Int) :
    n.tdiv nanosPerDay * nanosPerDay + ((n.tmod nanosPerDay).tdiv 1000000000 * 1000000000 +
      n.tmod 1000000000) = n := by
  have hday := Int.mul_tdiv_add_tmod n nanosPerDay
  rw [Int.mul_comm] at hday
  have hsecond := Int.mul_tdiv_add_tmod (n.tmod nanosPerDay) 1000000000
  have hnanosecond : (n.tmod nanosPerDay).tmod 1000000000 = n.tmod 1000000000 :=
    Int.tmod_tmod_of_dvd n (by decide)
  omega

section

variable {start stop : Int} {startTime stopTime : Nat}

theorem elapsedNanoseconds_ok (hstart : DayInRange start) (hstop : DayInRange stop)
    (hstartTime : startTime < dayNanoseconds) (hstopTime : stopTime < dayNanoseconds) :
    elapsedNanoseconds (temporalPointLocal start startTime) (temporalPointLocal stop stopTime) =
      .ok (instant stop stopTime - instant start startTime) := by
  have hnear := dayInRange_iff.mp hstart
  have hfar := dayInRange_iff.mp hstop
  have hday : nanosPerDay = 86400000000000 := rfl
  unfold dayNanoseconds at hstartTime hstopTime
  rw [elapsedNanoseconds, instant, instant, hday]
  unfold temporalPointLocal
  dsimp only
  rw [i128_ok (by omega), ok_bind, i128_ok (by omega), ok_bind, i128_ok (by omega), ok_bind,
    i128_ok (by omega)]
  exact congrArg Except.ok (by omega)

theorem instant_bound (hstart : DayInRange start) (hstop : DayInRange stop)
    (hstartTime : startTime < dayNanoseconds) (hstopTime : stopTime < dayNanoseconds) :
    (instant stop stopTime - instant start startTime).natAbs < 10 ^ 26 := by
  have hnear := dayInRange_iff.mp hstart
  have hfar := dayInRange_iff.mp hstop
  have hday : nanosPerDay = 86400000000000 := rfl
  unfold dayNanoseconds at hstartTime hstopTime
  rw [instant, instant, hday]
  omega

theorem differenceInSeconds_ok (hstart : DayInRange start) (hstop : DayInRange stop)
    (hstartTime : startTime < dayNanoseconds) (hstopTime : stopTime < dayNanoseconds) :
    ∃ duration, differenceInSeconds (temporalPointLocal start startTime)
        (temporalPointLocal stop stopTime) = .ok duration ∧ Fits duration ∧
      duration.months = 0 ∧ duration.days = 0 ∧
        timePart duration = instant stop stopTime - instant start startTime := by
  have hbound := instant_bound hstart hstop hstartTime hstopTime
  rw [differenceInSeconds, elapsedNanoseconds_ok hstart hstop hstartTime hstopTime, ok_bind]
  generalize instant stop stopTime - instant start startTime = elapsed at hbound ⊢
  have hseconds : (elapsed.tdiv 1000000000).natAbs = elapsed.natAbs / 1000000000 :=
    Int.natAbs_tdiv _ _
  have hrest : (elapsed.tmod 1000000000).natAbs = elapsed.natAbs % 1000000000 :=
    Int.natAbs_tmod _ _
  obtain ⟨duration, hrun, hfits, hmonths, hdays, hpart⟩ := durationFromI128_ok
    (by omega : (0 : Int).natAbs < 10 ^ 18) (by omega : (0 : Int).natAbs < 10 ^ 18)
    (by omega : (elapsed.tdiv 1000000000).natAbs < 10 ^ 18)
    (by omega : (elapsed.tmod 1000000000).natAbs < 10 ^ 18)
  refine ⟨duration, hrun, hfits, hmonths, hdays, ?_⟩
  rw [hpart, Int.mul_comm]
  exact Int.mul_tdiv_add_tmod elapsed 1000000000

theorem differenceInDays_ok (hstart : DayInRange start) (hstop : DayInRange stop)
    (hstartTime : startTime < dayNanoseconds) (hstopTime : stopTime < dayNanoseconds) :
    ∃ duration, differenceInDays (temporalPointLocal start startTime)
        (temporalPointLocal stop stopTime) = .ok duration ∧ Fits duration ∧
      duration.months = 0 ∧ timePart duration = 0 ∧
        duration.days = (instant stop stopTime - instant start startTime).tdiv nanosPerDay := by
  have hbound := instant_bound hstart hstop hstartTime hstopTime
  rw [differenceInDays, elapsedNanoseconds_ok hstart hstop hstartTime hstopTime, ok_bind]
  generalize instant stop stopTime - instant start startTime = elapsed at hbound ⊢
  have hdays : (elapsed.tdiv nanosPerDay).natAbs = elapsed.natAbs / 86400000000000 :=
    Int.natAbs_tdiv _ _
  obtain ⟨duration, hrun, hfits, hmonths, hdays, hpart⟩ := durationFromI128_ok
    (by omega : (0 : Int).natAbs < 10 ^ 18) (by omega : (elapsed.tdiv nanosPerDay).natAbs < 10 ^ 18)
    (by omega : (0 : Int).natAbs < 10 ^ 18) (by omega : (0 : Int).natAbs < 10 ^ 18)
  exact ⟨duration, hrun, hfits, hmonths, hpart, hdays⟩

/-- **The logical difference: the most months, and all that remains.** -/
theorem differenceLogically_ok (hstart : DayInRange start) (hstop : DayInRange stop)
    (hstartTime : startTime < dayNanoseconds) (hstopTime : stopTime < dayNanoseconds) :
    ∃ duration, differenceLogically (temporalPointLocal start startTime)
        (temporalPointLocal stop stopTime) = .ok duration ∧ Fits duration ∧
      Most (fun months => instant (monthShift start months) startTime) (instant stop stopTime)
        duration.months ∧
      DayInRange (monthShift start duration.months) ∧
      duration.days = (instant stop stopTime -
        instant (monthShift start duration.months) startTime).tdiv nanosPerDay ∧
      duration.days * nanosPerDay + timePart duration =
        instant stop stopTime - instant (monthShift start duration.months) startTime := by
  obtain ⟨months, hmonths, hmost, hin, hsmall⟩ :=
    wholeMonthsBetween_most hstart hstop hstartTime hstopTime
  have hbound := instant_bound hin hstop hstartTime hstopTime
  have hwide : (instant stop stopTime - instant (monthShift start months) startTime).natAbs <
      10 ^ 36 := by omega
  have hshift := (shiftDaysByMonths_eq hstart (by unfold IsI64; omega)).1 hin
  have hrun : differenceLogically (temporalPointLocal start startTime)
      (temporalPointLocal stop stopTime) =
      durationFromI128 months
        ((instant stop stopTime - instant (monthShift start months) startTime).tdiv nanosPerDay)
        (((instant stop stopTime - instant (monthShift start months) startTime).tmod
          nanosPerDay).tdiv 1000000000)
        ((instant stop stopTime - instant (monthShift start months) startTime).tmod
          1000000000) := by
    rw [differenceLogically, hmonths, ok_bind]
    unfold temporalPointLocal
    dsimp only
    rw [hshift, ok_bind, localNanoseconds_ok hin hstartTime, ok_bind,
      localNanoseconds_ok hstop hstopTime, ok_bind, i128_ok hwide, ok_bind]
    rfl
  rw [hrun]
  generalize hremainder : instant stop stopTime - instant (monthShift start months) startTime =
    remainder at hbound
  have hdays : (remainder.tdiv nanosPerDay).natAbs = remainder.natAbs / 86400000000000 :=
    Int.natAbs_tdiv _ _
  have hday : (remainder.tmod nanosPerDay).natAbs = remainder.natAbs % 86400000000000 :=
    Int.natAbs_tmod _ _
  have hseconds : ((remainder.tmod nanosPerDay).tdiv 1000000000).natAbs =
      (remainder.tmod nanosPerDay).natAbs / 1000000000 := Int.natAbs_tdiv _ _
  have hrest : (remainder.tmod 1000000000).natAbs = remainder.natAbs % 1000000000 :=
    Int.natAbs_tmod _ _
  obtain ⟨duration, hrun, hfits, hmonths, hdays, hpart⟩ := durationFromI128_ok hsmall
    (by omega : (remainder.tdiv nanosPerDay).natAbs < 10 ^ 18)
    (by omega : ((remainder.tmod nanosPerDay).tdiv 1000000000).natAbs < 10 ^ 18)
    (by omega : (remainder.tmod 1000000000).natAbs < 10 ^ 18)
  subst hmonths
  refine ⟨duration, hrun, hfits, hmost, hin, ?_, ?_⟩
  · rw [hdays, hremainder]
  · rw [hremainder, hdays, hpart, tdiv_parts]

end

/-! ## 4. Adding a difference back -/

/-- `temporal_point` of a date. -/
def datePoint (value : DateValue) : TemporalPoint := temporalPointLocal value.days 0

/-- `temporal_point` of a local date with a time. -/
def dateTimePoint (value : LocalDateTimeValue) : TemporalPoint :=
  temporalPointLocal value.days value.nanoseconds

theorem instant_parts {days : Int} {nanoseconds : Nat} (h : nanoseconds < dayNanoseconds) :
    instant days nanoseconds / nanosPerDay = days ∧
      (instant days nanoseconds % nanosPerDay).toNat = nanoseconds := by
  have hday : nanosPerDay = 86400000000000 := rfl
  unfold dayNanoseconds at h
  rw [instant, hday]
  omega

theorem shiftLocalDateTime_reaches {start stop : LocalDateTimeValue} {duration : DurationValue}
    (hstart : DayInRange start.days) (hstartTime : start.nanoseconds < dayNanoseconds)
    (hstop : DayInRange stop.days) (hstopTime : stop.nanoseconds < dayNanoseconds)
    (hvalue : stop = dateTimeOn stop.days stop.nanoseconds) (hfits : Fits duration)
    (hmonths : DayInRange (monthShift start.days duration.months))
    (hreach : instant (monthShift start.days duration.months) start.nanoseconds +
      (duration.days * nanosPerDay + timePart duration) = instant stop.days stop.nanoseconds)
    (hlong : ¬ ShortNegativeDay stop.days) :
    shiftTemporalLocalDateTime start duration false = .ok stop := by
  have hexact := shiftLocalDateTime_exact hstart hstartTime hfits hmonths
  have hshift : dateTimeShift start.days start.nanoseconds duration =
      (stop.days, stop.nanoseconds) := by
    have htotal : (monthShift start.days duration.months + duration.days) * nanosPerDay +
        start.nanoseconds + (duration.seconds * 1000000000 + duration.nanoseconds) =
        instant stop.days stop.nanoseconds := by
      rw [← hreach, instant, timePart, Int.add_mul]
      omega
    obtain ⟨hdays, htime⟩ := @instant_parts stop.days stop.nanoseconds hstopTime
    rw [dateTimeShift, htotal, hdays, htime]
  rw [hshift] at hexact
  have hresult := hexact.1 hstop hlong
  rw [← hvalue] at hresult
  exact hresult

theorem shiftDate_reaches {start stop : DateValue} {duration : DurationValue}
    (hstart : DayInRange start.days) (hstop : DayInRange stop.days)
    (hvalue : stop = dateOn stop.days) (hfits : Fits duration)
    (hmonths : DayInRange (monthShift start.days duration.months))
    (hreach : instant (monthShift start.days duration.months) 0 +
      (duration.days * nanosPerDay + timePart duration) = instant stop.days 0)
    (hlong : ¬ ShortNegativeDay stop.days) :
    shiftTemporalDate start duration false = .ok stop := by
  have hexact := shiftDate_exact hstart hfits hmonths
  have hshift : dateShift start.days duration = stop.days := by
    have hpart : timePart duration =
        (stop.days - monthShift start.days duration.months - duration.days) * nanosPerDay := by
      rw [instant, instant] at hreach
      rw [Int.sub_mul, Int.sub_mul]
      omega
    have hperDay : nanosPerDay ≠ 0 := by decide
    rw [timePart] at hpart
    rw [dateShift, hpart, Int.mul_tdiv_cancel _ hperDay]
    omega
  rw [hshift] at hexact
  have hresult := hexact.1 hstop hlong
  rw [← hvalue] at hresult
  exact hresult

theorem tdiv_most {start target : Int} {nanoseconds : Nat} :
    Most (fun days => instant (start + days) nanoseconds) target
      ((target - instant start nanoseconds).tdiv nanosPerDay) := by
  have hday : nanosPerDay = 86400000000000 := rfl
  have hascending : StrictMono fun days => instant (start + days) nanoseconds := by
    intro a b hab
    unfold instant
    dsimp only
    rw [hday]
    omega
  obtain hforth | hback := Int.le_total 0 (target - instant start nanoseconds)
  · rw [Int.tdiv_eq_ediv_of_nonneg hforth]
    refine most_forward hascending ?_ ?_ ?_ <;> unfold instant at hforth ⊢ <;>
      rw [hday] at hforth ⊢ <;> omega
  · have hneg : (target - instant start nanoseconds).tdiv nanosPerDay =
        -((instant start nanoseconds - target) / nanosPerDay) := by
      rw [← Int.tdiv_eq_ediv_of_nonneg (by omega), ← Int.neg_tdiv, Int.neg_sub]
    rw [hneg]
    refine most_backward hascending ?_ ?_ ?_ <;> unfold instant at hback ⊢ <;>
      rw [hday] at hback ⊢ <;> omega

/-- The differences of two dates, and what adding them to the first gives. -/
def DatesAgree (start stop : DateValue) : Prop :=
  ∃ between inDays inSeconds, differenceLogically (datePoint start) (datePoint stop) = .ok between ∧
    differenceInDays (datePoint start) (datePoint stop) = .ok inDays ∧
    differenceInSeconds (datePoint start) (datePoint stop) = .ok inSeconds ∧
    Most (fun months => instant (monthShift start.days months) 0) (instant stop.days 0)
      between.months ∧
    (¬ ShortNegativeDay stop.days →
      shiftTemporalDate start between false = .ok stop ∧
        shiftTemporalDate start inDays false = .ok stop ∧
          shiftTemporalDate start inSeconds false = .ok stop)

/-- The differences of two local dates with times, and what adding them to the first gives. -/
def DateTimesAgree (start stop : LocalDateTimeValue) : Prop :=
  ∃ between inDays inSeconds,
    differenceLogically (dateTimePoint start) (dateTimePoint stop) = .ok between ∧
    differenceInDays (dateTimePoint start) (dateTimePoint stop) = .ok inDays ∧
    differenceInSeconds (dateTimePoint start) (dateTimePoint stop) = .ok inSeconds ∧
    Most (fun months => instant (monthShift start.days months) start.nanoseconds)
      (instant stop.days stop.nanoseconds) between.months ∧
    (¬ ShortNegativeDay stop.days →
      shiftTemporalLocalDateTime start between false = .ok stop ∧
        shiftTemporalLocalDateTime start inSeconds false = .ok stop) ∧
    Most (fun days => instant (start.days + days) start.nanoseconds)
      (instant stop.days stop.nanoseconds) inDays.days ∧
    (¬ ShortNegativeDay (start.days + inDays.days) →
      shiftTemporalLocalDateTime start inDays false =
        .ok (dateTimeOn (start.days + inDays.days) start.nanoseconds))

theorem datesAgree {start stop : DateValue} (hstart : DayInRange start.days)
    (hstop : DayInRange stop.days) (hvalue : stop = dateOn stop.days) :
    DatesAgree start stop := by
  have htime : 0 < dayNanoseconds := by decide
  obtain ⟨between, hbetween, hfits, hmost, hmonths, _, hpart⟩ :=
    differenceLogically_ok hstart hstop htime htime
  obtain ⟨inDays, hinDays, hfitsDays, hmonthsDays, hpartDays, hdays⟩ :=
    differenceInDays_ok hstart hstop htime htime
  obtain ⟨inSeconds, hinSeconds, hfitsSeconds, hmonthsSeconds, hdaysSeconds, hpartSeconds⟩ :=
    differenceInSeconds_ok hstart hstop htime htime
  refine ⟨between, inDays, inSeconds, hbetween, hinDays, hinSeconds, hmost, fun hlong => ?_⟩
  refine ⟨shiftDate_reaches hstart hstop hvalue hfits hmonths (by omega) hlong,
    shiftDate_reaches hstart hstop hvalue hfitsDays ?_ ?_ hlong,
    shiftDate_reaches hstart hstop hvalue hfitsSeconds ?_ ?_ hlong⟩
  · rwa [hmonthsDays, monthShift_zero]
  · have hperDay : nanosPerDay ≠ 0 := by decide
    have hdiff : instant stop.days 0 - instant start.days 0 =
        (stop.days - start.days) * nanosPerDay := by
      rw [instant, instant, Int.sub_mul]
      omega
    rw [hmonthsDays, monthShift_zero, hpartDays, hdays, hdiff, Int.mul_tdiv_cancel _ hperDay,
      ← hdiff]
    omega
  · rwa [hmonthsSeconds, monthShift_zero]
  · rw [hmonthsSeconds, monthShift_zero, hdaysSeconds, hpartSeconds]
    omega

theorem dateTimesAgree {start stop : LocalDateTimeValue} (hstart : DayInRange start.days)
    (hstartTime : start.nanoseconds < dayNanoseconds) (hstop : DayInRange stop.days)
    (hstopTime : stop.nanoseconds < dayNanoseconds)
    (hvalue : stop = dateTimeOn stop.days stop.nanoseconds) : DateTimesAgree start stop := by
  obtain ⟨between, hbetween, hfits, hmost, hmonths, _, hpart⟩ :=
    differenceLogically_ok hstart hstop hstartTime hstopTime
  obtain ⟨inDays, hinDays, hfitsDays, hmonthsDays, hpartDays, hdays⟩ :=
    differenceInDays_ok hstart hstop hstartTime hstopTime
  obtain ⟨inSeconds, hinSeconds, hfitsSeconds, hmonthsSeconds, hdaysSeconds, hpartSeconds⟩ :=
    differenceInSeconds_ok hstart hstop hstartTime hstopTime
  have hmostDays := @tdiv_most start.days (instant stop.days stop.nanoseconds) start.nanoseconds
  rw [← hdays] at hmostDays
  refine ⟨between, inDays, inSeconds, hbetween, hinDays, hinSeconds, hmost, fun hlong => ?_,
    hmostDays, fun hlong => ?_⟩
  · refine ⟨shiftLocalDateTime_reaches hstart hstartTime hstop hstopTime hvalue hfits hmonths
      (by omega) hlong,
      shiftLocalDateTime_reaches hstart hstartTime hstop hstopTime hvalue hfitsSeconds ?_ ?_ hlong⟩
    · rwa [hmonthsSeconds, monthShift_zero]
    · rw [hmonthsSeconds, monthShift_zero, hdaysSeconds, hpartSeconds]
      omega
  · have hin : DayInRange (start.days + inDays.days) := by
      have hnear := dayInRange_iff.mp hstart
      have hfar := dayInRange_iff.mp hstop
      rw [dayInRange_iff]
      obtain hforth | hback := le_total (instant (start.days + 0) start.nanoseconds)
        (instant stop.days stop.nanoseconds)
      · obtain ⟨hpos, hle⟩ := (hmostDays.1 hforth).1
        have hday := le_of_instant_le hle hstopTime
        omega
      · obtain ⟨hneg, hle⟩ := (hmostDays.2 hback).1
        have hday := le_of_instant_le hle hstartTime
        omega
    refine @shiftLocalDateTime_reaches start (dateTimeOn (start.days + inDays.days)
      start.nanoseconds) inDays hstart hstartTime hin hstartTime rfl hfitsDays ?_ ?_ hlong
    · rwa [hmonthsDays, monthShift_zero]
    · rw [hmonthsDays, monthShift_zero, hpartDays]
      unfold instant dateTimeOn
      dsimp only
      rw [Int.add_mul]
      omega

/-- **What lies between two dates, or two local dates with times, leads from the first to the
    second.** -/
theorem difference_added :
    (∀ text text' start stop, DateValue.parse text = .ok start → DateValue.parse text' = .ok stop →
      DatesAgree start stop) ∧
    (∀ text text' start stop, LocalDateTimeValue.parse text = .ok start →
      LocalDateTimeValue.parse text' = .ok stop → DateTimesAgree start stop) := by
  constructor
  · intro text text' start stop hstart hstop
    obtain ⟨_, hin⟩ := date_of_parse hstart
    obtain ⟨hvalue, hin'⟩ := date_of_parse hstop
    exact datesAgree hin hin' hvalue
  · intro text text' start stop hstart hstop
    obtain ⟨_, hin, htime⟩ := dateTime_of_parse hstart
    obtain ⟨hvalue, hin', htime'⟩ := dateTime_of_parse hstop
    exact dateTimesAgree hin htime hin' htime' hvalue

/-- From the last day of January to a day of March 2024 it is a month, to the leap day, and a
    day. -/
theorem difference_added_leap_day :
    ∃ between, differenceLogically (datePoint ⟨"2024-01-31".toList, 19753⟩)
        (datePoint ⟨"2024-03-01".toList, 19783⟩) = .ok between ∧
      shiftTemporalDate ⟨"2024-01-31".toList, 19753⟩ between false =
        .ok ⟨"2024-03-01".toList, 19783⟩ := by
  obtain ⟨between, _, _, hbetween, _, _, _, hadded⟩ := difference_added.1 "2024-01-31".toList
    "2024-03-01".toList ⟨"2024-01-31".toList, 19753⟩ ⟨"2024-03-01".toList, 19783⟩ (by decide)
    (by decide)
  exact ⟨between, hbetween, (hadded (by decide)).1⟩

/-- Half a day is no whole day, and adding none does not lead to noon. -/
theorem inDays_drops_hours :
    LocalDateTimeValue.parse "2024-01-01T00:00:00".toList = .ok ⟨"2024-01-01T00:00:00".toList,
        19723, 0⟩ ∧
      LocalDateTimeValue.parse "2024-01-01T12:00:00".toList = .ok ⟨"2024-01-01T12:00:00".toList,
        19723, 43200000000000⟩ ∧
      differenceInDays (dateTimePoint ⟨"2024-01-01T00:00:00".toList, 19723, 0⟩)
        (dateTimePoint ⟨"2024-01-01T12:00:00".toList, 19723, 43200000000000⟩) =
          .ok ⟨0, 0, 0, 0⟩ ∧
      shiftTemporalLocalDateTime ⟨"2024-01-01T00:00:00".toList, 19723, 0⟩ ⟨0, 0, 0, 0⟩ false =
        .ok ⟨"2024-01-01T00:00:00".toList, 19723, 0⟩ := by
  decide

end Lithograph.Query.Functions
