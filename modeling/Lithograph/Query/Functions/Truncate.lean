/-
  File:      Lithograph/Query/Functions/Truncate.lean
  Subject:   Truncating dates, local times and local dates with times
             (`query/functions/temporal.rs`).

  The periods of a unit start at ascending nanoseconds of the local time line. Left out: times with
  an offset or in zones, and the fields that replace truncated ones.

  * **`truncate_greatest`**: a truncation gives the greatest start of its unit that is not after the
    value.
-/
import Lithograph.Query.Functions.DateForms
import Lithograph.Query.Functions.Difference
import Lithograph.Query.Schema.Validate

namespace Lithograph.Query.Functions

open Library Storage Cypher

/-! ## 1. Truncation -/

/-- The units of `canonical_truncate_unit`. -/
inductive TruncateUnit where
  | millennium | century | decade | year | weekYear | quarter | month | week | day
  | hour | minute | second | millisecond | microsecond | nanosecond
  deriving DecidableEq, Repr

def TruncateUnit.name : TruncateUnit → String
  | .millennium => "millennium"
  | .century => "century"
  | .decade => "decade"
  | .year => "year"
  | .weekYear => "weekyear"
  | .quarter => "quarter"
  | .month => "month"
  | .week => "week"
  | .day => "day"
  | .hour => "hour"
  | .minute => "minute"
  | .second => "second"
  | .millisecond => "millisecond"
  | .microsecond => "microsecond"
  | .nanosecond => "nanosecond"

def TruncateUnit.all : List TruncateUnit :=
  [.millennium, .century, .decade, .year, .weekYear, .quarter, .month, .week, .day, .hour,
    .minute, .second, .millisecond, .microsecond, .nanosecond]

def canonicalTruncateUnit (unit : Text) : Option TruncateUnit :=
  TruncateUnit.all.find? fun candidate => eqIgnoreAsciiCase unit candidate.name.toList

def dateDays (year : Int) (month day : Nat) : QueryResult Int := do
  let value ← ofValue (DateValue.fromComponents year month day)
  pure value.days

def truncateDateDays (days : Int) (unit : Text) : QueryResult Int :=
  let date := civilFromDays days
  match canonicalTruncateUnit unit with
  | some .millennium => dateDays (date.1 / 1000 * 1000) 1 1
  | some .century => dateDays (date.1 / 100 * 100) 1 1
  | some .decade => dateDays (date.1 / 10 * 10) 1 1
  | some .year => dateDays date.1 1 1
  | some .weekYear => do
    let dayOfWeek := (days + 3) % 7 + 1
    let weekYear := (civilFromDays (days + (4 - dayOfWeek))).1
    let januaryFourth ← dateDays weekYear 1 4
    pure (startOfWeek januaryFourth)
  | some .quarter => dateDays date.1 ((date.2.1 - 1) / 3 * 3 + 1) 1
  | some .month => dateDays date.1 date.2.1 1
  | some .week => .ok (startOfWeek days)
  | some .day => .ok days
  | _ => .error ⟨.semantic, "unsupported date truncation unit"⟩

def truncateDate (value : DateValue) (unit : Text) : QueryResult DateValue := do
  let days ← truncateDateDays value.days unit
  ofValue (DateValue.fromDays days)

/-- The quantum of a unit in `truncate_time_nanos`. -/
def TruncateUnit.quantum : TruncateUnit → Option Nat
  | .day => some 86400000000000
  | .hour => some (3600 * 1000000000)
  | .minute => some (60 * 1000000000)
  | .second => some 1000000000
  | .millisecond => some 1000000
  | .microsecond => some 1000
  | .nanosecond => some 1
  | _ => none

def truncateTimeNanos (value : Nat) (unit : Text) : QueryResult Nat :=
  match (canonicalTruncateUnit unit).bind TruncateUnit.quantum with
  | some quantum => .ok (value / quantum * quantum)
  | none => .error ⟨.semantic, "unsupported time truncation unit"⟩

def truncateLocalTime (value : LocalTimeValue) (unit : Text) : QueryResult LocalTimeValue := do
  let nanoseconds ← truncateTimeNanos value.nanoseconds unit
  ofValue (LocalTimeValue.fromNanoseconds nanoseconds)

/-- The units of whole days in `truncate_datetime_parts`. -/
def TruncateUnit.ofDays : TruncateUnit → Bool
  | .millennium | .century | .decade | .year | .weekYear | .quarter | .month | .week | .day => true
  | _ => false

def truncateDatetimeParts (days : Int) (time : Nat) (unit : Text) : QueryResult (Int × Nat) :=
  if (canonicalTruncateUnit unit).any TruncateUnit.ofDays then do
    let days ← truncateDateDays days unit
    pure (days, 0)
  else do
    let time ← truncateTimeNanos time unit
    pure (days, time)

/-- `truncate_local_datetime`. -/
def truncateLocalDateTime (value : LocalDateTimeValue) (unit : Text) :
    QueryResult LocalDateTimeValue := do
  let parts ← truncateDatetimeParts value.days value.nanoseconds unit
  ofValue (LocalDateTimeValue.fromComponents parts.1 parts.2)

/-! ## 2. Starts -/

/-- The nanoseconds at which the periods of a unit start. -/
def TruncateUnit.starts : TruncateUnit → Int → Int
  | .millennium, n => yearStart (1000 * n) * nanosPerDay
  | .century, n => yearStart (100 * n) * nanosPerDay
  | .decade, n => yearStart (10 * n) * nanosPerDay
  | .year, n => yearStart n * nanosPerDay
  | .weekYear, n => firstMonday n * nanosPerDay
  | .quarter, n => quarterStart n * nanosPerDay
  | .month, n => monthStart n * nanosPerDay
  | .week, n => (7 * n - 3) * nanosPerDay
  | .day, n => n * nanosPerDay
  | .hour, n => n * 3600000000000
  | .minute, n => n * 60000000000
  | .second, n => n * 1000000000
  | .millisecond, n => n * 1000000
  | .microsecond, n => n * 1000
  | .nanosecond, n => n

/-- The day number of a start, in the days of a date. -/
structure Found (days : Int) (result : QueryResult Int) (f : Int → Int) : Prop where
  ascends : StrictMono f
  found : ∃ n, LiesBetween f n days ∧ ∀ day, result = .ok day ↔ day = f n ∧ DayInRange (f n)

variable {days : Int} {unit : Text} {u : TruncateUnit} {q : Nat}

theorem dateDays_iff {year : Int} {month day : Nat} (hdate : CivilDate year month day)
    (hday : day < 100) (hyear : year.natAbs < 10 ^ 20) : dateDays year month day = .ok days ↔
      days = daysFromCivil year month day ∧ DayInRange (daysFromCivil year month day) := by
  have hbuilt := @DateValue.fromComponents_iff _ _ _ hdate hday hyear
  rw [dateDays, bind_eq_ok, dayInRange_civil hdate]
  constructor
  · intro h
    obtain ⟨value, hvalue, h⟩ := h
    obtain ⟨rfl, hrange⟩ := hbuilt.mp (ofValue_ok.mp hvalue)
    exact ⟨(Except.ok.inj h).symm, hrange⟩
  · intro h
    obtain ⟨rfl, hrange⟩ := h
    refine ⟨_, ofValue_ok.mpr (hbuilt.mpr ⟨rfl, hrange⟩), ?_⟩
    rfl

theorem found_years {days k : Int} (hk : 0 < k ∧ k ≤ 1000) (hdays : DayInRange days) :
    Found days (dateDays ((civilFromDays days).1 / k * k) 1 1) fun n => yearStart (k * n) := by
  have hyear := between_year days
  have hlow := Int.ediv_mul_le (civilFromDays days).1 (ne_of_gt hk.1)
  have hhigh := Int.lt_ediv_add_one_mul_self (civilFromDays days).1 hk.1
  rw [Int.add_mul] at hhigh
  obtain ⟨hfirst, hlast⟩ := hdays
  refine ⟨strictMono_blocks strictMono_yearStart hk.1, _,
    between_blocks strictMono_yearStart hk.1 hyear, fun day => ?_⟩
  rw [dateDays_iff (civilDate_first _ (by omega)) (by omega) (by omega), Int.mul_comm k]
  rfl

theorem found_quarter (hdays : DayInRange days) :
    Found days (dateDays (civilFromDays days).1 (((civilFromDays days).2.1 - 1) / 3 * 3 + 1) 1)
      quarterStart := by
  obtain ⟨hquarter, hbetween⟩ := quarter_of_day days
  have hstart := @quarterStart_eq (civilFromDays days).1 _ hquarter
  rw [Nat.add_sub_cancel] at hstart
  obtain ⟨hfirst, hlast⟩ := hdays
  refine ⟨strictMono_months (by omega), _, hbetween, fun day => ?_⟩
  rw [dateDays_iff (civilDate_first _ (by omega)) (by omega) (by omega), hstart]

theorem found_month (hdays : DayInRange days) :
    Found days (dateDays (civilFromDays days).1 (civilFromDays days).2.1 1) monthStart := by
  obtain ⟨n, hn⟩ := exists_month days
  obtain ⟨hfirst, hlast⟩ := hdays
  refine ⟨strictMono_monthStart, n, hn, fun day => ?_⟩
  rw [civilFromDays_month hn] at hfirst hlast ⊢
  rw [dateDays_iff (civilDate_first _ (monthOf_bounds n)) (by omega) (by omega)]
  rfl

theorem found_weekYear (hdays : DayInRange days) :
    Found days (dateDays (weekYear days) 1 4 >>= fun day => pure (startOfWeek day))
      firstMonday := by
  have hrange := yearInRange_weekYear hdays
  have hlow := strictMono_firstMonday.monotone hrange.1
  have hhigh := (between_weekYear days).1
  have hfourth : CivilDate (weekYear days) 1 4 := ⟨by omega, by omega, by omega,
    (by omega : 4 ≤ 28).trans (daysInMonth_bounds _ (by omega)).1⟩
  have hbound : (weekYear days).natAbs < 10 ^ 20 := by
    unfold YearInRange at hrange
    omega
  refine ⟨strictMono_firstMonday, _, between_weekYear days, fun day => ?_⟩
  rw [bind_eq_ok]
  constructor
  · intro h
    obtain ⟨fourth, hbuilt, h⟩ := h
    obtain ⟨rfl, _⟩ := (dateDays_iff hfourth (by omega) hbound).mp hbuilt
    rw [dayInRange_iff] at hdays ⊢
    exact ⟨(Except.ok.inj h).symm, hlow, by omega⟩
  · intro h
    exact ⟨_, (dateDays_iff hfourth (by omega) hbound).mpr
      ⟨rfl, (dayInRange_civil hfourth).mpr hrange⟩, congrArg Except.ok h.1.symm⟩

theorem found_week (hdays : DayInRange days) :
    Found days (.ok (startOfWeek days)) fun n => 7 * n - 3 := by
  have hweek : startOfWeek days = 7 * ((days + 3) / 7) - 3 := by
    unfold startOfWeek
    omega
  have hascends : StrictMono fun n : Int => 7 * n - 3 := by
    intro a b h
    show 7 * a - 3 < 7 * b - 3
    omega
  refine ⟨hascends, (days + 3) / 7, ⟨by dsimp only; omega, by dsimp only; omega⟩, fun day => ?_⟩
  have hrange : DayInRange (7 * ((days + 3) / 7) - 3) := by
    rw [dayInRange_iff] at hdays ⊢
    omega
  rw [hweek]
  exact ⟨fun h => ⟨(Except.ok.inj h).symm, hrange⟩, fun h => congrArg Except.ok h.1.symm⟩

theorem found_day (hdays : DayInRange days) : Found days (.ok days) fun n => n :=
  ⟨strictMono_id, days, ⟨le_refl _, Int.lt_succ _⟩, fun _ =>
    ⟨fun h => ⟨(Except.ok.inj h).symm, hdays⟩, fun h => congrArg Except.ok h.1.symm⟩⟩

theorem truncateDateDays_found (hunit : canonicalTruncateUnit unit = some u)
    (hofDays : u.ofDays = true) (hdays : DayInRange days) :
    ∃ f, Found days (truncateDateDays days unit) f ∧ u.starts = fun n => f n * nanosPerDay := by
  rw [truncateDateDays, hunit]
  cases u with
  | millennium => exact ⟨_, found_years (by omega) hdays, rfl⟩
  | century => exact ⟨_, found_years (by omega) hdays, rfl⟩
  | decade => exact ⟨_, found_years (by omega) hdays, rfl⟩
  | year =>
    have hyear := @found_years days 1 (by omega) hdays
    simp only [Int.ediv_one, Int.mul_one, Int.one_mul] at hyear
    exact ⟨_, hyear, rfl⟩
  | weekYear => exact ⟨_, found_weekYear hdays, rfl⟩
  | quarter => exact ⟨_, found_quarter hdays, rfl⟩
  | month => exact ⟨_, found_month hdays, rfl⟩
  | week => exact ⟨_, found_week hdays, rfl⟩
  | day => exact ⟨_, found_day hdays, rfl⟩
  | _ => cases hofDays

theorem truncateTimeNanos_eq (time : Nat) (hunit : canonicalTruncateUnit unit = some u)
    (hquantum : u.quantum = some q) : truncateTimeNanos time unit = .ok (time / q * q) := by
  rw [truncateTimeNanos, hunit]
  dsimp only [Option.bind]
  rw [hquantum]

theorem quantum_pos (h : u.quantum = some q) :
    0 < q ∧ u.starts = (fun n => n * (q : Int)) ∧ (dayNanoseconds : Int) % q = 0 := by
  cases u <;> cases h
  case nanosecond => exact ⟨by decide, funext fun n => (Int.mul_one n).symm, by decide⟩
  all_goals exact ⟨by decide, rfl, by decide⟩

/-! ## 3. Rounding down -/

/-- A truncation to a unit, of values that lie at nanoseconds of the local time line: it gives the
    greatest start that is not after the value where its year is in range, and is refused where it
    is not. Nothing is said of starts in the years -999 to -1. -/
structure Truncates {α : Type} (run : α → QueryResult α) (Valid : α → Prop) (position : α → Int)
    (value : Int → α) (u : TruncateUnit) : Prop where
  greatest : ∀ a, Valid a → ∃ start,
    IsGreatest {b | Boundary u.starts b ∧ b ≤ position a} start ∧
      (DayInRange (start / nanosPerDay) → ¬ ShortNegativeDay (start / nanosPerDay) →
        run a = .ok (value start) ∧ position (value start) = start) ∧
      (¬ DayInRange (start / nanosPerDay) → ∃ error, run a = .error error)
  notAfter : ∀ a b, Valid a → run a = .ok b → position b ≤ position a
  idempotent : ∀ a b, Valid a → run a = .ok b → run b = .ok b
  monotone : ∀ a a' b b', Valid a → Valid a' → position a ≤ position a' → run a = .ok b →
    run a' = .ok b' → position b ≤ position b'

/-- A value at a start of the unit, and what is truncated to it. -/
def TruncatedTo {α : Type} (run : α → QueryResult α) (Valid : α → Prop) (position : α → Int)
    (value : Int → α) (a : α) (start : Int) : Prop :=
  (DayInRange (start / nanosPerDay) → ¬ ShortNegativeDay (start / nanosPerDay) →
      Valid (value start) ∧ position (value start) = start) ∧
    ∀ b, run a = .ok b ↔ b = value start ∧ DayInRange (start / nanosPerDay) ∧
      ¬ ShortNegativeDay (start / nanosPerDay)

theorem strictMono_starts (u : TruncateUnit) : StrictMono u.starts := by
  have hday : (0 : Int) < nanosPerDay := by decide
  cases u with
  | millennium => exact strictMono_scaled (strictMono_blocks strictMono_yearStart (by omega)) hday
  | century => exact strictMono_scaled (strictMono_blocks strictMono_yearStart (by omega)) hday
  | decade => exact strictMono_scaled (strictMono_blocks strictMono_yearStart (by omega)) hday
  | year => exact strictMono_scaled strictMono_yearStart hday
  | weekYear => exact strictMono_scaled strictMono_firstMonday hday
  | quarter => exact strictMono_scaled (strictMono_months (by omega)) hday
  | month => exact strictMono_scaled strictMono_monthStart hday
  | week =>
    refine strictMono_scaled (fun a b h => ?_) hday
    show 7 * a - 3 < 7 * b - 3
    omega
  | day => exact strictMono_multiples hday
  | nanosecond => exact strictMono_id
  | _ => exact strictMono_multiples (by omega)

theorem Truncates.of_truncatedTo {α : Type} {run : α → QueryResult α} {Valid : α → Prop}
    {position : α → Int} {value : Int → α}
    (h : ∀ a, Valid a → ∃ n, LiesBetween u.starts n (position a) ∧
      TruncatedTo run Valid position value a (u.starts n)) :
    Truncates run Valid position value u := by
  have hascends := strictMono_starts u
  -- what a result is
  have hresult : ∀ a b, Valid a → run a = .ok b → ∃ n, LiesBetween u.starts n (position a) ∧
      Valid b ∧ position b = u.starts n ∧
        ∀ c, Valid c → LiesBetween u.starts n (position c) → run c = .ok b := by
    intro a b ha hrun
    obtain ⟨n, hn, hvalue, hiff⟩ := h a ha
    obtain ⟨rfl, hrange, hlong⟩ := (hiff b).mp hrun
    obtain ⟨hvalid, hposition⟩ := hvalue hrange hlong
    refine ⟨n, hn, hvalid, hposition, fun c hc hnc => ?_⟩
    obtain ⟨m, hm, _, hiff'⟩ := h c hc
    obtain rfl := hm.unique hascends hnc
    exact (hiff' _).mpr ⟨rfl, hrange, hlong⟩
  refine ⟨?_, ?_, ?_, ?_⟩
  · intro a ha
    obtain ⟨n, hn, hvalue, hiff⟩ := h a ha
    refine ⟨u.starts n, isGreatest_between hascends hn, ?_, ?_⟩
    · intro hrange hlong
      exact ⟨(hiff _).mpr ⟨rfl, hrange, hlong⟩, (hvalue hrange hlong).2⟩
    · intro hrange
      cases hrun : run a with
      | ok b => exact absurd ((hiff b).mp hrun).2.1 hrange
      | error error => exact ⟨error, rfl⟩
  · intro a b ha hrun
    obtain ⟨n, hn, _, hposition, _⟩ := hresult a b ha hrun
    exact hposition ▸ hn.1
  · intro a b ha hrun
    obtain ⟨n, hn, hvalid, hposition, hall⟩ := hresult a b ha hrun
    exact hall b hvalid (hposition ▸ between_self hascends n)
  · intro a a' b b' ha ha' hle hrun hrun'
    obtain ⟨n, hn, _, hposition, _⟩ := hresult a b ha hrun
    obtain ⟨m, hm, _, hposition', _⟩ := hresult a' b' ha' hrun'
    rw [hposition, hposition']
    exact hascends.monotone (hn.index_le hascends hm hle)

/-! ## 4. The truncations -/

theorem truncateDate_truncates (hunit : canonicalTruncateUnit unit = some u)
    (hofDays : u.ofDays = true) : Truncates (fun value => truncateDate value unit)
      (fun value => ∃ text, DateValue.parse text = .ok value)
      (fun value => instant value.days 0) (fun start => dateOn (start / nanosPerDay)) u := by
  have hperDay : (0 : Int) < nanosPerDay := by decide
  refine Truncates.of_truncatedTo fun value hvalue => ?_
  obtain ⟨text, hparse⟩ := hvalue
  obtain ⟨_, hdays⟩ := date_of_parse hparse
  obtain ⟨f, ⟨hascends, n, hn, hfound⟩, hstarts⟩ := truncateDateDays_found hunit hofDays hdays
  have hday : u.starts n / nanosPerDay = f n := by
    rw [hstarts]
    exact Int.mul_ediv_cancel _ (ne_of_gt hperDay)
  refine ⟨n, ?_, ?_, ?_⟩
  · rw [hstarts]
    exact between_scaled hn ⟨le_refl _, hperDay⟩
  · intro hrange _
    refine ⟨⟨_, parse_dateOn hrange⟩, ?_⟩
    beta_reduce
    rw [hday, hstarts, instant]
    exact Int.add_zero _
  · intro result
    beta_reduce
    rw [hday, truncateDate, bind_eq_ok]
    constructor
    · intro h
      obtain ⟨day, hdone, hbuilt⟩ := h
      obtain ⟨rfl, hrange⟩ := (hfound day).mp hdone
      have hbound := dayInRange_iff.mp hrange
      exact (DateValue.fromDays_iff (by omega)).mp (ofValue_ok.mp hbuilt)
    · intro h
      have hbound := dayInRange_iff.mp h.2.1
      exact ⟨_, (hfound _).mpr ⟨rfl, h.2.1⟩,
        ofValue_ok.mpr ((DateValue.fromDays_iff (by omega)).mpr h)⟩

theorem truncated_time {time q : Nat} (h : time < dayNanoseconds) :
    time / q * q < dayNanoseconds ∧ ((time / q * q : Nat) : Int) = (time : Int) / q * q := by
  have hle := Nat.div_mul_le_self time q
  exact ⟨by omega, by rw [Int.natCast_mul, Int.natCast_ediv]⟩

theorem truncateLocalTime_truncates (hunit : canonicalTruncateUnit unit = some u)
    (hquantum : u.quantum = some q) : Truncates (fun value => truncateLocalTime value unit)
      (fun value => ∃ text, LocalTimeValue.parse text = .ok value)
      (fun value => instant 0 value.nanoseconds)
      (fun start => ⟨formatLocalTime start.toNat, start.toNat⟩) u := by
  obtain ⟨hpos, hstarts, _⟩ := quantum_pos hquantum
  refine Truncates.of_truncatedTo fun value hvalue => ?_
  obtain ⟨text, hparse⟩ := hvalue
  obtain ⟨htime, _⟩ := localTime_parse_ok hparse
  obtain ⟨hlt, hcast⟩ := @truncated_time _ q htime
  have hstart : u.starts ((value.nanoseconds : Int) / q) = (value.nanoseconds / q * q : Nat) := by
    rw [hstarts, hcast]
  have hday : u.starts ((value.nanoseconds : Int) / q) / nanosPerDay = 0 := by
    have hperDay : nanosPerDay = 86400000000000 := rfl
    rw [hstart, hperDay]
    unfold dayNanoseconds at hlt
    omega
  refine ⟨(value.nanoseconds : Int) / q, ?_, ?_, ?_⟩
  · rw [hstarts, instant, Int.zero_mul, Int.zero_add]
    exact between_multiples (by omega) _
  · intro _ _
    beta_reduce
    rw [hstart, Int.toNat_natCast, instant, Int.zero_mul, Int.zero_add]
    exact ⟨⟨_, parse_formatLocalTime hlt⟩, rfl⟩
  · intro result
    beta_reduce
    rw [hday, hstart, Int.toNat_natCast, truncateLocalTime, truncateTimeNanos_eq _ hunit hquantum,
      ok_bind, LocalTimeValue.fromNanoseconds_eq hlt]
    exact ⟨fun h => ⟨(Except.ok.inj h).symm, by decide, by decide⟩,
      fun h => congrArg Except.ok h.1.symm⟩

/-- **Date and time are truncated to the start of the period they lie in.** -/
theorem truncateDatetimeParts_found {time : Nat} (hunit : canonicalTruncateUnit unit = some u)
    (hdays : DayInRange days) (htime : time < dayNanoseconds) :
    ∃ n day start, LiesBetween u.starts n (instant days time) ∧ u.starts n = instant day start ∧
      start < dayNanoseconds ∧
        ∀ parts, truncateDatetimeParts days time unit = .ok parts ↔
          parts = (day, start) ∧ DayInRange day := by
  have hperDay : nanosPerDay = (dayNanoseconds : Int) := by decide
  have hpositive : 0 < dayNanoseconds := by decide
  rw [truncateDatetimeParts, hunit, Option.any_some]
  by_cases hofDays : u.ofDays = true
  · rw [if_pos hofDays]
    obtain ⟨f, ⟨_, n, hn, hfound⟩, hstarts⟩ := truncateDateDays_found hunit hofDays hdays
    refine ⟨n, f n, 0, ?_, ?_, hpositive, fun parts => ?_⟩
    · rw [hstarts]
      exact between_scaled hn (by omega)
    · rw [hstarts, instant]
      exact (Int.add_zero _).symm
    · rw [bind_eq_ok]
      constructor
      · intro h
        obtain ⟨day, hdone, h⟩ := h
        obtain ⟨rfl, hrange⟩ := (hfound day).mp hdone
        exact ⟨(Except.ok.inj h).symm, hrange⟩
      · intro h
        exact ⟨_, (hfound _).mpr ⟨rfl, h.2⟩, congrArg Except.ok h.1.symm⟩
  · rw [if_neg hofDays]
    -- the units that are not of whole days have a quantum
    obtain ⟨q, hquantum⟩ : ∃ q, u.quantum = some q := by
      cases u with
      | millennium | century | decade | year | weekYear | quarter | month | week | day =>
        exact absurd rfl hofDays
      | _ => exact ⟨_, rfl⟩
    obtain ⟨hpos, hstarts, hdivides⟩ := quantum_pos hquantum
    obtain ⟨hlt, hcast⟩ := @truncated_time _ q htime
    have hbetween := between_multiples (by omega : (0 : Int) < q) (instant days time)
    have hstart : instant days time / q * q = instant days (time / q * q) := by
      exact multiple_below_add (by omega) hdivides days time
    refine ⟨instant days time / q, days, time / q * q, ?_, ?_, hlt, fun parts => ?_⟩
    · rw [hstarts]
      exact hbetween
    · rw [hstarts]
      exact hstart
    · rw [truncateTimeNanos_eq _ hunit hquantum, ok_bind]
      exact ⟨fun h => ⟨(Except.ok.inj h).symm, hdays⟩, fun h => congrArg Except.ok h.1.symm⟩

theorem truncateLocalDateTime_truncates (hunit : canonicalTruncateUnit unit = some u) :
    Truncates (fun value => truncateLocalDateTime value unit)
      (fun value => ∃ text, LocalDateTimeValue.parse text = .ok value)
      (fun value => instant value.days value.nanoseconds)
      (fun start => dateTimeOn (start / nanosPerDay) (start % nanosPerDay).toNat) u := by
  refine Truncates.of_truncatedTo fun value hvalue => ?_
  obtain ⟨text, hparse⟩ := hvalue
  obtain ⟨_, hdays, htime⟩ := dateTime_of_parse hparse
  obtain ⟨n, day, start, hn, hstarts, hstart, hfound⟩ :=
    truncateDatetimeParts_found hunit hdays htime
  obtain ⟨hday, hnanoseconds⟩ := @instant_parts day start hstart
  rw [← hstarts] at hday hnanoseconds
  refine ⟨n, hn, ?_, ?_⟩
  · intro hrange hlong
    beta_reduce
    rw [hday] at hrange hlong
    rw [hday, hnanoseconds]
    have hbound := dayInRange_iff.mp hrange
    exact ⟨⟨_, (LocalDateTimeValue.fromComponents_iff (by omega) hstart).mpr
      ⟨rfl, hrange, hlong⟩⟩, hstarts.symm⟩
  · intro result
    beta_reduce
    rw [hday, hnanoseconds, truncateLocalDateTime, bind_eq_ok]
    constructor
    · intro h
      obtain ⟨parts, hdone, hbuilt⟩ := h
      obtain ⟨rfl, hrange⟩ := (hfound parts).mp hdone
      have hbound := dayInRange_iff.mp hrange
      exact (LocalDateTimeValue.fromComponents_iff (by omega) hstart).mp (ofValue_ok.mp hbuilt)
    · intro h
      have hbound := dayInRange_iff.mp h.2.1
      exact ⟨_, (hfound _).mpr ⟨rfl, h.2.1⟩,
        ofValue_ok.mpr ((LocalDateTimeValue.fromComponents_iff (by omega) hstart).mpr h)⟩

/-- **Truncating a date to a unit of whole days, a local time to a unit within the day or a local
    date with a time to any unit is rounding down to the starts of the unit; other units are
    refused.** -/
theorem truncate_greatest (unit : Text) :
    (∀ u, canonicalTruncateUnit unit = some u →
      (u.ofDays = true → Truncates (fun value => truncateDate value unit)
        (fun value => ∃ text, DateValue.parse text = .ok value)
        (fun value => instant value.days 0) (fun start => dateOn (start / nanosPerDay)) u) ∧
      (u.quantum.isSome = true → Truncates (fun value => truncateLocalTime value unit)
        (fun value => ∃ text, LocalTimeValue.parse text = .ok value)
        (fun value => instant 0 value.nanoseconds)
        (fun start => ⟨formatLocalTime start.toNat, start.toNat⟩) u) ∧
      Truncates (fun value => truncateLocalDateTime value unit)
        (fun value => ∃ text, LocalDateTimeValue.parse text = .ok value)
        (fun value => instant value.days value.nanoseconds)
        (fun start => dateTimeOn (start / nanosPerDay) (start % nanosPerDay).toNat) u) ∧
    (¬ (canonicalTruncateUnit unit).any TruncateUnit.ofDays = true → ∀ value,
      truncateDate value unit = .error ⟨.semantic, "unsupported date truncation unit"⟩) ∧
    ((canonicalTruncateUnit unit).bind TruncateUnit.quantum = none → ∀ value,
      truncateLocalTime value unit = .error ⟨.semantic, "unsupported time truncation unit"⟩) ∧
    (canonicalTruncateUnit unit = none → ∀ value,
      truncateLocalDateTime value unit =
        .error ⟨.semantic, "unsupported time truncation unit"⟩) := by
  refine ⟨?_, ?_, ?_, ?_⟩
  · intro u hunit
    refine ⟨truncateDate_truncates hunit, ?_, truncateLocalDateTime_truncates hunit⟩
    intro hsome
    obtain ⟨q, hquantum⟩ := Option.isSome_iff_exists.mp hsome
    exact truncateLocalTime_truncates hunit hquantum
  · intro hnot value
    rw [truncateDate, truncateDateDays]
    cases hunit : canonicalTruncateUnit unit with
    | none => rfl
    | some u =>
      rw [hunit, Option.any_some] at hnot
      cases u with
      | millennium | century | decade | year | weekYear | quarter | month | week | day =>
        exact absurd rfl hnot
      | _ => rfl
  · intro hnone value
    rw [truncateLocalTime, truncateTimeNanos, hnone]
    rfl
  · intro hnone value
    rw [truncateLocalDateTime, truncateDatetimeParts, truncateTimeNanos, hnone]
    rfl

/-- The leap day lies in the quarter that starts with the year. -/
theorem truncate_greatest_quarter :
    truncateDate ⟨"2024-01-01".toList, 19723⟩ "Quarter".toList =
      .ok ⟨"2024-01-01".toList, 19723⟩ :=
  (((truncate_greatest "Quarter".toList).1 .quarter (by decide)).1 (by decide)).idempotent
    ⟨"2024-02-29".toList, 19782⟩ _ ⟨"2024-02-29".toList, by decide⟩ (by decide)

/-- The decade of the first date starts before the range, and dates have no hours. -/
theorem truncate_refused_first :
    DateValue.parse "-999999999-01-01".toList =
        .ok ⟨"-999999999-01-01".toList, -365243219162⟩ ∧
      truncateDate ⟨"-999999999-01-01".toList, -365243219162⟩ "decade".toList =
        .error ⟨.type, "Date year is outside the Cypher range"⟩ ∧
      truncateDate ⟨"-999999999-01-01".toList, -365243219162⟩ "hour".toList =
        .error ⟨.semantic, "unsupported date truncation unit"⟩ := by
  decide

end Lithograph.Query.Functions
