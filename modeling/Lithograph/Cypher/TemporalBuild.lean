/-
  File:      Lithograph/Cypher/TemporalBuild.lean
  Subject:   Temporal values built from numbers (`cypher/temporal.rs`,
             `cypher/temporal_datetime.rs`).

  A value is built by formatting its text and parsing it again.

  * `LocalDateTimeValue.fromComponents_iff`: which date with a time its components build.
-/
import Lithograph.Cypher.CalendarOrder
import Lithograph.Cypher.TemporalIdentity

namespace Lithograph.Cypher

open Library

def DateValue.fromDays (days : Int) : ValueResult DateValue :=
  DateValue.parse (formatDateFromDays days)

def DateValue.fromComponents (year : Int) (month day : Nat) : ValueResult DateValue :=
  DateValue.parse (formatDate year month day)

def LocalTimeValue.fromNanoseconds (nanoseconds : Nat) : ValueResult LocalTimeValue :=
  LocalTimeValue.parse (formatLocalTime nanoseconds)

def LocalDateTimeValue.fromComponents (days : Int) (nanoseconds : Nat) :
    ValueResult LocalDateTimeValue :=
  LocalDateTimeValue.parse (formatDateFromDays days ++ 'T' :: formatLocalTime nanoseconds)

/-- The date of a day number, with its canonical text. -/
def dateOn (days : Int) : DateValue :=
  let date := civilFromDays days
  ⟨formatDate date.1 date.2.1 date.2.2, days⟩

/-- The date and time of a day number and the nanoseconds of its day. -/
def dateTimeOn (days : Int) (nanoseconds : Nat) : LocalDateTimeValue :=
  ⟨(dateOn days).text ++ 'T' :: formatLocalTime nanoseconds, days, nanoseconds⟩

/-! ## 1. Years -/

/-- The years a date can have. -/
def YearInRange (year : Int) : Prop := -999999999 ≤ year ∧ year ≤ 999999999

instance (year : Int) : Decidable (YearInRange year) := by
  unfold YearInRange
  infer_instance

theorem parseYear_ok {text digits : Text} {sign : Option Char} {year : Int}
    (hsign : stripSign text = (sign, digits)) (h : parseYear text = .ok year) :
    year = (if sign = some '-' then -(number digits : Int) else number digits) ∧
      YearInRange year := by
  unfold parseYear at h
  rw [hsign] at h
  obtain ⟨_, _, h⟩ := bind_eq_ok.mp h
  obtain ⟨_, _, h⟩ := bind_eq_ok.mp h
  obtain ⟨_, hrange, h⟩ := bind_eq_ok.mp h
  cases h
  simp only [rejectWhen_ok, Bool.or_eq_false_iff, decide_eq_false_iff_not, Int.not_lt] at hrange
  exact ⟨rfl, hrange⟩

variable {year read : Int} {month day : Nat}

theorem parseYear_integerText (hbound : year.natAbs < 10 ^ 20)
    (h : parseYear (integerText year) = .ok read) : read = year ∧ YearInRange year := by
  unfold integerText at h
  split at h
  · obtain ⟨hread, hrange⟩ := parseYear_ok (stripSign_minus _) h
    rw [if_pos rfl, number_decimal hbound] at hread
    have heq : read = year := by omega
    exact ⟨heq, heq ▸ hrange⟩
  · have hdigits : ∀ c ∈ decimal year.natAbs, isDigit c = true :=
      fun c hc => isDigit_of_mem_decimal hc
    obtain ⟨hread, hrange⟩ := parseYear_ok (stripSign_digits hdigits) h
    rw [if_neg (by simp), number_decimal hbound] at hread
    have heq : read = year := by omega
    exact ⟨heq, heq ▸ hrange⟩

/-- **A year is read from its text just where it is in range.** -/
theorem parseYear_yearText_iff (hbound : year.natAbs < 10 ^ 20) :
    parseYear (yearText year) = .ok read ↔ read = year ∧ YearInRange year := by
  constructor
  · intro h
    by_cases hrange : YearInRange year
    · rw [parseYear_yearText hrange.1 hrange.2] at h
      exact ⟨(Except.ok.inj h).symm, hrange⟩
    · -- such a year is written with all its digits
      unfold YearInRange at hrange
      unfold yearText at h
      rw [if_neg (by omega), if_neg (by omega)] at h
      split at h
      · next hlarge =>
        unfold integerText at h
        rw [if_neg (by omega)] at h
        obtain ⟨hread, hin⟩ := @parseYear_ok _ _ (some '+') _ rfl h
        rw [if_neg (by decide), number_decimal hbound] at hread
        unfold YearInRange at hin
        omega
      · exact absurd (parseYear_integerText hbound h).2 hrange
  · intro h
    rw [h.1, parseYear_yearText h.2.1 h.2.2]

/-! ## 2. Dates -/

theorem parseDate_iff {yearText : Text} (hdate : CivilDate year month day) (hday : day < 100)
    (hyear : ∀ read, parseYear yearText = .ok read → read = year) {date : Int × Nat × Nat} :
    parseDate (yearText ++ monthDayText month day) = .ok date ↔
      parseYear yearText = .ok year ∧ date = (year, month, day) := by
  constructor
  · intro h
    have hread : parseYear yearText = .ok year := by
      have hmonth : month < 100 := Nat.lt_of_le_of_lt hdate.month_le (by omega)
      obtain ⟨hcut, hcut'⟩ := rsplitOnce_date yearText hmonth hday
      unfold parseDate at h
      obtain ⟨_, hfirst, h⟩ := bind_eq_ok.mp h
      rw [hcut, required_ok] at hfirst
      obtain rfl := Option.some.inj hfirst
      obtain ⟨_, hsecond, h⟩ := bind_eq_ok.mp h
      rw [hcut', required_ok] at hsecond
      obtain rfl := Option.some.inj hsecond
      obtain ⟨read, hread, _⟩ := bind_eq_ok.mp h
      rw [hread, hyear read hread]
    rw [parseDate_text hdate hday hread] at h
    exact ⟨hread, (Except.ok.inj h).symm⟩
  · intro h
    rw [h.2, parseDate_text hdate hday h.1]

variable {text : Text}

theorem parse_of_date {value : DateValue} :
    DateValue.parse text = .ok value ↔ ∃ date, parseDate text = .ok date ∧
      value = ⟨formatDate date.1 date.2.1 date.2.2, daysFromCivil date.1 date.2.1 date.2.2⟩ := by
  unfold DateValue.parse
  rw [bind_eq_ok]
  exact exists_congr fun date => and_congr_right fun _ =>
    ⟨fun h => (Except.ok.inj h).symm, fun h => h ▸ rfl⟩

theorem dateOn_civil (h : CivilDate year month day) : dateOn (daysFromCivil year month day) =
      ⟨formatDate year month day, daysFromCivil year month day⟩ := by
  rw [dateOn, civilFromDays_daysFromCivil h]

theorem DateValue.fromComponents_iff {year : Int} {month day : Nat}
    (hdate : CivilDate year month day) (hday : day < 100) (hbound : year.natAbs < 10 ^ 20)
    {value : DateValue} :
    DateValue.fromComponents year month day = .ok value ↔
      value = dateOn (daysFromCivil year month day) ∧ YearInRange year := by
  have hread : ∀ read, parseYear (yearText year) = .ok read → read = year :=
    fun read h => ((parseYear_yearText_iff hbound).mp h).1
  rw [DateValue.fromComponents, parse_of_date, formatDate_eq, dateOn_civil hdate]
  constructor
  · intro h
    obtain ⟨date, hparse, rfl⟩ := h
    obtain ⟨hyear, rfl⟩ := (parseDate_iff hdate hday hread).mp hparse
    exact ⟨rfl, ((parseYear_yearText_iff hbound).mp hyear).2⟩
  · intro h
    obtain ⟨rfl, hrange⟩ := h
    exact ⟨(year, month, day), (parseDate_iff hdate hday hread).mpr
      ⟨(parseYear_yearText_iff hbound).mpr ⟨rfl, hrange⟩, rfl⟩, rfl⟩

variable {days : Int}

theorem year_bound (h : days.natAbs < 10 ^ 20 - 10 ^ 9) :
    (civilFromDays days).1.natAbs < 10 ^ 20 := by
  obtain ⟨hlow, hhigh⟩ := between_year days
  rw [yearStart, daysFromCivil_eq] at hlow hhigh
  norm_num at hlow hhigh
  omega

/-- The year in the text that a day number is formatted as. -/
def dayYearText (year : Int) : Text :=
  if 0 ≤ year ∧ year ≤ 9999 then pad 4 year.natAbs else integerText year

theorem formatDateFromDays_eq (h : CivilDate year month day) :
    formatDateFromDays (daysFromCivil year month day) =
      dayYearText year ++ monthDayText month day := by
  unfold formatDateFromDays dayYearText
  rw [civilFromDays_daysFromCivil h]
  dsimp only
  split <;> rfl

theorem parseYear_dayYearText (hbound : year.natAbs < 10 ^ 20)
    (h : parseYear (dayYearText year) = .ok read) : read = year ∧ YearInRange year := by
  unfold dayYearText at h
  split at h
  · next hsmall =>
    have htext : yearText year = pad 4 year.natAbs := if_pos hsmall
    rw [← htext] at h
    exact (parseYear_yearText_iff hbound).mp h
  · exact parseYear_integerText hbound h

/-- **A date is built from its day number just where its year is in range and not short and
negative.** -/
theorem DateValue.fromDays_iff (h : days.natAbs < 10 ^ 20 - 10 ^ 9) {value : DateValue} :
    DateValue.fromDays days = .ok value ↔
      value = dateOn days ∧ DayInRange days ∧ ¬ ShortNegativeDay days := by
  have hbound := year_bound h
  obtain ⟨year, month, day, hdate, hday, rfl, hcivil⟩ := exists_civil days
  rw [hcivil] at hbound
  rw [dateOn_civil hdate, dayInRange_civil hdate, ShortNegativeDay, hcivil, DateValue.fromDays,
    parse_of_date]
  constructor
  · intro hparse
    obtain ⟨date, hparse, rfl⟩ := hparse
    have hlong : ¬ ShortNegativeYear year :=
      fun hshort => parseDate_short hdate hday hshort date hparse
    rw [formatDateFromDays_eq hdate] at hparse
    have hread : ∀ read, parseYear (dayYearText year) = .ok read → read = year :=
      fun read h => (parseYear_dayYearText hbound h).1
    obtain ⟨hyear, rfl⟩ := (parseDate_iff hdate hday hread).mp hparse
    exact ⟨rfl, (parseYear_dayYearText hbound hyear).2, hlong⟩
  · intro hall
    obtain ⟨rfl, ⟨hlow, hhigh⟩, hlong⟩ := hall
    exact ⟨_, parseDate_formatDateFromDays hdate hday hlow hhigh hlong, rfl⟩

theorem date_of_parse {date : DateValue} (h : DateValue.parse text = .ok date) :
    date = dateOn date.days ∧ DayInRange date.days := by
  obtain ⟨year, month, day, hdate, hlow, hhigh, _, rfl⟩ := date_parse_ok h
  exact ⟨(dateOn_civil hdate).symm, (dayInRange_civil hdate).mpr ⟨hlow, hhigh⟩⟩

theorem parse_dateOn (h : DayInRange days) :
    DateValue.parse (dateOn days).text = .ok (dateOn days) := by
  obtain ⟨year, month, day, hdate, hday, rfl, hcivil⟩ := exists_civil days
  rw [dateOn_civil hdate]
  rw [dayInRange_civil hdate] at h
  have hbound : year.natAbs < 10 ^ 20 := by omega
  have hbuilt := (DateValue.fromComponents_iff hdate hday hbound).mpr ⟨rfl, h⟩
  rwa [dateOn_civil hdate] at hbuilt

/-! ## 3. Times -/

theorem LocalTimeValue.fromNanoseconds_eq {nanoseconds : Nat} (h : nanoseconds < dayNanoseconds) :
    LocalTimeValue.fromNanoseconds nanoseconds =
      .ok ⟨formatLocalTime nanoseconds, nanoseconds⟩ :=
  parse_formatLocalTime h

theorem LocalDateTimeValue.fromComponents_iff {nanoseconds : Nat}
    (hdays : days.natAbs < 10 ^ 20 - 10 ^ 9) (htime : nanoseconds < dayNanoseconds)
    {value : LocalDateTimeValue} :
    LocalDateTimeValue.fromComponents days nanoseconds = .ok value ↔
      value = dateTimeOn days nanoseconds ∧ DayInRange days ∧ ¬ ShortNegativeDay days := by
  have hcut : splitOnce 'T' (formatDateFromDays days ++ 'T' :: formatLocalTime nanoseconds) =
      some (formatDateFromDays days, formatLocalTime nanoseconds) := by
    obtain ⟨year, month, day, hdate, hday, rfl, _⟩ := exists_civil days
    exact splitOnce_append (not_mem_formatDateFromDays hdate hday)
  have hdate := @DateValue.fromDays_iff days hdays
  rw [LocalDateTimeValue.fromComponents, LocalDateTimeValue.parse, hcut]
  constructor
  · intro h
    obtain ⟨parts, hparts, h⟩ := bind_eq_ok.mp h
    obtain rfl := Option.some.inj (required_ok.mp hparts)
    obtain ⟨date, hparse, h⟩ := bind_eq_ok.mp h
    obtain ⟨time, hread, h⟩ := bind_eq_ok.mp h
    obtain ⟨rfl, hrest⟩ := hdate.mp hparse
    rw [parse_formatLocalTime htime] at hread
    obtain rfl := Except.ok.inj hread
    exact ⟨(Except.ok.inj h).symm, hrest⟩
  · intro h
    obtain ⟨rfl, hrest⟩ := h
    have hparse := hdate.mpr ⟨rfl, hrest⟩
    refine bind_eq_ok.mpr ⟨_, required_ok.mpr rfl, ?_⟩
    refine bind_eq_ok.mpr ⟨_, hparse, ?_⟩
    exact bind_eq_ok.mpr ⟨_, parse_formatLocalTime htime, rfl⟩

theorem dateTime_of_parse {value : LocalDateTimeValue}
    (h : LocalDateTimeValue.parse text = .ok value) :
    value = dateTimeOn value.days value.nanoseconds ∧ DayInRange value.days ∧
      value.nanoseconds < dayNanoseconds := by
  unfold LocalDateTimeValue.parse at h
  obtain ⟨parts, _, h⟩ := bind_eq_ok.mp h
  obtain ⟨date, hdate, h⟩ := bind_eq_ok.mp h
  obtain ⟨time, htime, h⟩ := bind_eq_ok.mp h
  obtain rfl := Except.ok.inj h
  obtain ⟨hvalue, hrange⟩ := date_of_parse hdate
  obtain ⟨hlt, htext⟩ := localTime_parse_ok htime
  rw [dateTimeOn, ← hvalue, htext]
  exact ⟨rfl, hrange, hlt⟩

end Lithograph.Cypher
