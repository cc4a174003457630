/-
  File:      Lithograph/Cypher/TemporalIdentity.lean
  Subject:   What makes two temporal values one: their text, or their numbers (`cypher/temporal.rs`,
             `cypher/temporal_datetime.rs`).

  * `date_text_iff` and the others: one text exactly where there is one set of numbers.
-/
import Lithograph.Cypher.TemporalText

namespace Lithograph.Cypher

open Library Storage

theorem integerText_inj {a b : Int} (ha : a.natAbs < 10 ^ 20) (hb : b.natAbs < 10 ^ 20)
    (h : integerText a = integerText b) : a = b := by
  have hstrip : ∀ n : Int, stripSign (integerText n) =
      (if n < 0 then some '-' else none, decimal n.natAbs) := fun n => by
    unfold integerText
    split
    · rfl
    · exact stripSign_digits fun c hc => isDigit_of_mem_decimal hc
  have hparts := congrArg stripSign h
  rw [hstrip, hstrip] at hparts
  obtain ⟨hsign, hdigits⟩ := Prod.mk.inj hparts
  have hnumber := congrArg number hdigits
  rw [number_decimal ha, number_decimal hb] at hnumber
  have hneg : a < 0 ↔ b < 0 := by
    constructor
    · intro hna
      by_contra hnb
      rw [if_pos hna, if_neg hnb] at hsign
      cases hsign
    · intro hnb
      by_contra hna
      rw [if_neg hna, if_pos hnb] at hsign
      cases hsign
  omega

/-! ## 1. The canonical text -/

/-- The year of a date text, in at least four digits and with a sign where it needs one. -/
def yearText (year : Int) : Text :=
  if 0 ≤ year ∧ year ≤ 9999 then pad 4 year.natAbs
  else if -9999 ≤ year ∧ year < 0 then '-' :: pad 4 year.natAbs
  else if 9999 < year then '+' :: integerText year
  else integerText year

theorem formatDate_eq (year : Int) (month day : Nat) :
    formatDate year month day = yearText year ++ monthDayText month day := by
  unfold formatDate yearText
  split
  · rfl
  split
  · rfl
  split <;> rfl

variable {year : Int} {zones : ZoneDatabase}

theorem pad_year (h : year.natAbs < 10 ^ 4) :
    (∀ c ∈ pad 4 year.natAbs, isDigit c = true) ∧ (pad 4 year.natAbs).length = 4 ∧
      number (pad 4 year.natAbs) = year.natAbs := by
  rw [pad_of_lt h]
  exact ⟨fun c hc => isDigit_of_mem_fixedDigits hc, length_fixedDigits 4 _,
    number_fixedDigits_of_lt h⟩

theorem decimal_year (hlow : 9999 < year.natAbs) (hhigh : year.natAbs ≤ 999999999) :
    (∀ c ∈ decimal year.natAbs, isDigit c = true) ∧ 4 ≤ (decimal year.natAbs).length ∧
      number (decimal year.natAbs) = year.natAbs := by
  have hbound : year.natAbs < 10 ^ 20 := by omega
  have hthousand : 10 ^ 3 ≤ year.natAbs := by omega
  exact ⟨fun c hc => isDigit_of_mem_decimal hc, lt_length_decimal hbound hthousand,
    number_decimal hbound⟩

theorem parseYear_yearText (hlow : -999999999 ≤ year) (hhigh : year ≤ 999999999) :
    parseYear (yearText year) = .ok year := by
  unfold yearText
  split
  · obtain ⟨hdigits, hlength, hnumber⟩ := @pad_year year (by omega)
    refine parseYear_digits (stripSign_digits hdigits) hdigits (Nat.le_of_eq hlength.symm) ?_ hlow
      hhigh
    rw [hnumber, if_neg (by simp)]
    omega
  split
  · obtain ⟨hdigits, hlength, hnumber⟩ := @pad_year year (by omega)
    refine parseYear_digits (stripSign_minus _) hdigits (Nat.le_of_eq hlength.symm) ?_ hlow hhigh
    rw [hnumber, if_pos rfl]
    omega
  split
  · rename_i _ _ hlarge
    obtain ⟨hdigits, hlength, hnumber⟩ := @decimal_year year (by omega) (by omega)
    unfold integerText
    rw [if_neg (by omega)]
    refine @parseYear_digits _ _ (some '+') _ rfl hdigits hlength ?_ hlow hhigh
    rw [hnumber, if_neg (by decide)]
    omega
  · obtain ⟨hdigits, hlength, hnumber⟩ := @decimal_year year (by omega) (by omega)
    unfold integerText
    rw [if_pos (by omega)]
    refine parseYear_digits (stripSign_minus _) hdigits hlength ?_ hlow hhigh
    rw [hnumber, if_pos rfl]
    omega

variable {text text' : Text} {date : DateValue}

theorem DateValue.parse_text (h : DateValue.parse text = .ok date) :
    DateValue.parse date.text = .ok date := by
  obtain ⟨year, month, day, hcivil, hlow, hhigh, hday, rfl⟩ := date_parse_ok h
  unfold DateValue.parse
  rw [formatDate_eq, parseDate_text hcivil hday (parseYear_yearText hlow hhigh), ← formatDate_eq]
  rfl

theorem LocalTimeValue.parse_text {time : LocalTimeValue}
    (h : LocalTimeValue.parse text = .ok time) : LocalTimeValue.parse time.text = .ok time := by
  obtain ⟨hlt, htext⟩ := localTime_parse_ok h
  rw [htext, parse_formatLocalTime hlt, ← htext]

theorem TimeValue.parse_text {time : TimeValue} (h : TimeValue.parse text = .ok time) :
    TimeValue.parse time.text = .ok time := by
  obtain ⟨hlt, hoffset, htext⟩ := time_parse_ok h
  rw [htext, time_parse_format hlt hoffset, ← htext]

theorem DateValue.not_mem_text (h : DateValue.parse text = .ok date) : 'T' ∉ date.text := by
  obtain ⟨year, month, day, hcivil, hlow, hhigh, hday, rfl⟩ := date_parse_ok h
  have hmonth : month < 100 := Nat.lt_of_le_of_lt hcivil.month_le (by omega)
  have hpad : ∀ n, n < 100 → 'T' ∉ pad 2 n := fun n hn => by
    rw [pad_of_lt (by simpa using hn)]
    exact not_mem_fixedDigits rfl
  have hyear : 'T' ∉ yearText year := by
    have hpadded : year.natAbs < 10 ^ 4 → 'T' ∉ pad 4 year.natAbs := fun hlt hmem => by
      have := (pad_year hlt).1 _ hmem
      cases this
    have hdecimal : 'T' ∉ decimal year.natAbs := fun hmem => by
      have := isDigit_of_mem_decimal hmem
      cases this
    unfold yearText integerText
    intro hmem
    split at hmem
    · exact hpadded (by omega) hmem
    split at hmem
    · rcases List.mem_cons.mp hmem with hmem | hmem
      · cases hmem
      · exact hpadded (by omega) hmem
    split at hmem
    · rcases List.mem_cons.mp hmem with hmem | hmem
      · cases hmem
      · rw [if_neg (by omega)] at hmem
        exact hdecimal hmem
    · rw [if_pos (by omega)] at hmem
      rcases List.mem_cons.mp hmem with hmem | hmem
      · cases hmem
      · exact hdecimal hmem
  rw [formatDate_eq]
  unfold monthDayText
  intro hmem
  rcases List.mem_append.mp hmem with hmem | hmem
  · exact hyear hmem
  rcases List.mem_append.mp hmem with hmem | hmem
  · rcases List.mem_cons.mp hmem with hmem | hmem
    · cases hmem
    · exact hpad month hmonth hmem
  · rcases List.mem_cons.mp hmem with hmem | hmem
    · cases hmem
    · exact hpad day hday hmem

theorem LocalDateTimeValue.parse_text {text : Text} {value : LocalDateTimeValue}
    (h : LocalDateTimeValue.parse text = .ok value) :
    LocalDateTimeValue.parse value.text = .ok value := by
  unfold LocalDateTimeValue.parse at h
  obtain ⟨parts, _, h⟩ := bind_eq_ok.mp h
  obtain ⟨date, hdate, h⟩ := bind_eq_ok.mp h
  obtain ⟨time, htime, h⟩ := bind_eq_ok.mp h
  cases h
  unfold LocalDateTimeValue.parse
  simp only [splitOnce_append (DateValue.not_mem_text hdate), required, DateValue.parse_text hdate,
    LocalTimeValue.parse_text htime, bind, Except.bind, pure, Except.pure]

theorem zoned_parse_ok {zone : Text} {value : ZonedDateTimeValue}
    (h : ZonedDateTimeValue.parse zones text zone = .ok value) : ∃ dateText timeText date time,
      DateValue.parse dateText = .ok date ∧ TimeValue.parse timeText = .ok time ∧
      expectedOffset zones zone (date.days * nanosPerDay + time.instantKey) =
        .ok time.offsetSeconds ∧
      value = ⟨date.text ++ 'T' :: time.text, zone, date.days * nanosPerDay + time.instantKey,
        time.offsetSeconds⟩ := by
  unfold ZonedDateTimeValue.parse at h
  obtain ⟨parts, _, h⟩ := bind_eq_ok.mp h
  obtain ⟨date, hdate, h⟩ := bind_eq_ok.mp h
  obtain ⟨time, htime, h⟩ := bind_eq_ok.mp h
  obtain ⟨expected, hexpected, h⟩ := bind_eq_ok.mp h
  obtain ⟨_, hsame, h⟩ := bind_eq_ok.mp h
  cases h
  simp only [rejectWhen_ok, bne_eq_false_iff_eq] at hsame
  subst hsame
  exact ⟨_, _, date, time, hdate, htime, hexpected, rfl⟩

theorem ZonedDateTimeValue.parse_text {text zone : Text}
    {value : ZonedDateTimeValue} (h : ZonedDateTimeValue.parse zones text zone = .ok value) :
    ZonedDateTimeValue.parse zones value.value zone = .ok value := by
  obtain ⟨_, _, date, time, hdate, htime, hexpected, rfl⟩ := zoned_parse_ok h
  unfold ZonedDateTimeValue.parse
  simp only [splitOnce_append (DateValue.not_mem_text hdate), required, DateValue.parse_text hdate,
    TimeValue.parse_text htime, bind, Except.bind, hexpected]
  simp [rejectWhen, pure, Except.pure]

/-! ## 2. The numbers -/

/-- **The days are the date.** -/
theorem DateValue.eq_of_days {date' : DateValue} (h : DateValue.parse text = .ok date)
    (h' : DateValue.parse text' = .ok date') (hdays : date.days = date'.days) : date = date' := by
  obtain ⟨year, month, day, hcivil, _, _, _, rfl⟩ := date_parse_ok h
  obtain ⟨year', month', day', hcivil', _, _, _, rfl⟩ := date_parse_ok h'
  have hdate := congrArg civilFromDays hdays
  rw [civilFromDays_daysFromCivil hcivil, civilFromDays_daysFromCivil hcivil'] at hdate
  cases hdate
  rfl

theorem LocalTimeValue.eq_of_nanoseconds {time time' : LocalTimeValue}
    (h : LocalTimeValue.parse text = .ok time) (h' : LocalTimeValue.parse text' = .ok time')
    (hnanos : time.nanoseconds = time'.nanoseconds) : time = time' := by
  have htext := (localTime_parse_ok h).2
  have htext' := (localTime_parse_ok h').2
  cases time
  cases time'
  simp_all

theorem TimeValue.eq_of_numbers {time time' : TimeValue} (h : TimeValue.parse text = .ok time)
    (h' : TimeValue.parse text' = .ok time')
    (hnanos : time.localNanoseconds = time'.localNanoseconds)
    (hoffset : time.offsetSeconds = time'.offsetSeconds) : time = time' := by
  obtain ⟨_, _, htext⟩ := time_parse_ok h
  obtain ⟨_, _, htext'⟩ := time_parse_ok h'
  cases time
  cases time'
  simp_all

theorem LocalDateTimeValue.eq_of_numbers {value value' : LocalDateTimeValue}
    (h : LocalDateTimeValue.parse text = .ok value)
    (h' : LocalDateTimeValue.parse text' = .ok value') (hdays : value.days = value'.days)
    (hnanos : value.nanoseconds = value'.nanoseconds) : value = value' := by
  unfold LocalDateTimeValue.parse at h h'
  obtain ⟨parts, _, h⟩ := bind_eq_ok.mp h
  obtain ⟨date, hdate, h⟩ := bind_eq_ok.mp h
  obtain ⟨time, htime, h⟩ := bind_eq_ok.mp h
  obtain ⟨parts', _, h'⟩ := bind_eq_ok.mp h'
  obtain ⟨date', hdate', h'⟩ := bind_eq_ok.mp h'
  obtain ⟨time', htime', h'⟩ := bind_eq_ok.mp h'
  cases h
  cases h'
  rw [DateValue.eq_of_days hdate hdate' hdays, LocalTimeValue.eq_of_nanoseconds htime htime' hnanos]

theorem local_of_instant {days days' offset : Int} {nanos nanos' : Nat}
    (hlt : nanos < dayNanoseconds) (hlt' : nanos' < dayNanoseconds)
    (h : days * nanosPerDay + (nanos - offset * 1000000000) =
      days' * nanosPerDay + (nanos' - offset * 1000000000)) : days = days' ∧ nanos = nanos' := by
  unfold dayNanoseconds at hlt hlt'
  unfold nanosPerDay at h
  omega

/-- **The instant and the zone are the value.** -/
theorem ZonedDateTimeValue.eq_of_instant {zone : Text}
    {value value' : ZonedDateTimeValue} (h : ZonedDateTimeValue.parse zones text zone = .ok value)
    (h' : ZonedDateTimeValue.parse zones text' zone = .ok value')
    (hinstant : value.instantNanoseconds = value'.instantNanoseconds) : value = value' := by
  obtain ⟨_, _, date, time, hdate, htime, hexpected, rfl⟩ := zoned_parse_ok h
  obtain ⟨_, _, date', time', hdate', htime', hexpected', rfl⟩ := zoned_parse_ok h'
  dsimp only at hinstant
  have hoffset : time.offsetSeconds = time'.offsetSeconds := by
    rw [hinstant, hexpected'] at hexpected
    exact (Except.ok.inj hexpected).symm
  obtain ⟨hlt, _, _⟩ := time_parse_ok htime
  obtain ⟨hlt', _, _⟩ := time_parse_ok htime'
  unfold TimeValue.instantKey at hinstant
  rw [hoffset] at hinstant
  obtain ⟨hdays, hnanos⟩ := local_of_instant hlt hlt' hinstant
  rw [DateValue.eq_of_days hdate hdate' hdays, TimeValue.eq_of_numbers htime htime' hnanos hoffset]

/-! ## 3. Texts and numbers -/

theorem date_text_iff {left right : DateValue} (hl : DateValue.parse text = .ok left)
    (hr : DateValue.parse text' = .ok right) : left.text = right.text ↔ left.days = right.days := by
  constructor
  · intro h
    have hsame := DateValue.parse_text hl
    rw [h, DateValue.parse_text hr] at hsame
    rw [Except.ok.inj hsame]
  · intro h
    rw [DateValue.eq_of_days hl hr h]

theorem localTime_text_iff {left right : LocalTimeValue}
    (hl : LocalTimeValue.parse text = .ok left) (hr : LocalTimeValue.parse text' = .ok right) :
    left.text = right.text ↔ left.nanoseconds = right.nanoseconds := by
  constructor
  · intro h
    have hsame := LocalTimeValue.parse_text hl
    rw [h, LocalTimeValue.parse_text hr] at hsame
    rw [Except.ok.inj hsame]
  · intro h
    rw [LocalTimeValue.eq_of_nanoseconds hl hr h]

theorem time_text_iff {left right : TimeValue} (hl : TimeValue.parse text = .ok left)
    (hr : TimeValue.parse text' = .ok right) : left.text = right.text ↔
      left.instantKey = right.instantKey ∧ left.offsetSeconds = right.offsetSeconds := by
  constructor
  · intro h
    have hsame := TimeValue.parse_text hl
    rw [h, TimeValue.parse_text hr] at hsame
    rw [Except.ok.inj hsame]
    exact ⟨rfl, rfl⟩
  · intro h
    obtain ⟨hinstant, hoffset⟩ := h
    unfold TimeValue.instantKey at hinstant
    rw [TimeValue.eq_of_numbers hl hr (by omega) hoffset]

theorem localDateTime_text_iff {left right : LocalDateTimeValue}
    (hl : LocalDateTimeValue.parse text = .ok left)
    (hr : LocalDateTimeValue.parse text' = .ok right) :
    left.text = right.text ↔ left.days = right.days ∧ left.nanoseconds = right.nanoseconds := by
  constructor
  · intro h
    have hsame := LocalDateTimeValue.parse_text hl
    rw [h, LocalDateTimeValue.parse_text hr] at hsame
    rw [Except.ok.inj hsame]
    exact ⟨rfl, rfl⟩
  · intro h
    rw [LocalDateTimeValue.eq_of_numbers hl hr h.1 h.2]

theorem zoned_text_iff {text text' : Text} {left right : ZonedDateTimeValue}
    (hl : ZonedDateTimeValue.parse zones text left.zone = .ok left)
    (hr : ZonedDateTimeValue.parse zones text' right.zone = .ok right) :
    left.value = right.value ∧ left.zone = right.zone ↔
      (left.instantNanoseconds = right.instantNanoseconds ∧
        left.offsetSeconds = right.offsetSeconds) ∧ left.zone = right.zone := by
  constructor
  · intro h
    have hsame := ZonedDateTimeValue.parse_text hl
    rw [h.1, h.2, ZonedDateTimeValue.parse_text hr] at hsame
    rw [Except.ok.inj hsame]
    exact ⟨⟨rfl, rfl⟩, rfl⟩
  · intro h
    rw [h.2] at hl
    rw [ZonedDateTimeValue.eq_of_instant hl hr h.1.1]
    exact ⟨rfl, rfl⟩

end Lithograph.Cypher
