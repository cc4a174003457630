/-
  File:      Lithograph/Cypher/TemporalText.lean
  Subject:   What is parsed back from the texts of dates, times and offsets.

  * `parseOffset_formatOffset`: an offset of at most eighteen hours comes back.
-/
import Lithograph.Cypher.Temporal

namespace Lithograph.Cypher

open Library

/-! ## 1. Two digits -/

variable {n month day nanosecond : Nat} {text : Text} {year offset : Int} {c : Char}

theorem parseTwoDigits_pad (h : n < 100) (name : String) :
    parseTwoDigits (pad 2 n) name = .ok n := by
  rw [pad_of_lt (by simpa using h)]
  unfold parseTwoDigits
  have hback : number (fixedDigits 2 n) = n := number_fixedDigits_of_lt h
  simp [rejectWhen, all_isDigit_fixedDigits, hback, bind, Except.bind, pure, Except.pure]

theorem parseTwoDigits_ok {name : String} (h : parseTwoDigits text name = .ok n) :
    text.length = 2 ∧ (∀ c ∈ text, isDigit c = true) ∧ number text = n ∧ n < 100 := by
  unfold parseTwoDigits at h
  obtain ⟨_, hform, h⟩ := bind_eq_ok.mp h
  cases h
  simp only [rejectWhen_ok, Bool.or_eq_false_iff, bne_eq_false_iff_eq, Bool.not_eq_false',
    List.all_eq_true] at hform
  refine ⟨hform.1, hform.2, rfl, ?_⟩
  have hlt := number_lt text hform.2
  rw [hform.1] at hlt
  exact hlt

/-! ## 2. Dates -/

/-- The years no reader accepts: their text has fewer than four digits. -/
def ShortNegativeYear (year : Int) : Prop := -999 ≤ year ∧ year ≤ -1

instance (year : Int) : Decidable (ShortNegativeYear year) := by
  unfold ShortNegativeYear
  infer_instance

theorem parseDate_ok {date : Int × Nat × Nat} (h : parseDate text = .ok date) :
    CivilDate date.1 date.2.1 date.2.2 ∧ -999999999 ≤ date.1 ∧ date.1 ≤ 999999999 ∧
      date.2.1 < 100 ∧ date.2.2 < 100 := by
  unfold parseDate at h
  obtain ⟨yearMonthDay, _, h⟩ := bind_eq_ok.mp h
  obtain ⟨yearMonth, _, h⟩ := bind_eq_ok.mp h
  obtain ⟨year, hyear, h⟩ := bind_eq_ok.mp h
  obtain ⟨month, hmonth, h⟩ := bind_eq_ok.mp h
  obtain ⟨day, hday, h⟩ := bind_eq_ok.mp h
  obtain ⟨_, hmonths, h⟩ := bind_eq_ok.mp h
  obtain ⟨_, hdays, h⟩ := bind_eq_ok.mp h
  cases h
  unfold parseYear at hyear
  obtain ⟨_, _, hyear⟩ := bind_eq_ok.mp hyear
  obtain ⟨_, _, hyear⟩ := bind_eq_ok.mp hyear
  obtain ⟨_, hrange, hyear⟩ := bind_eq_ok.mp hyear
  cases hyear
  simp only [rejectWhen_ok, Bool.or_eq_false_iff, decide_eq_false_iff_not, beq_eq_false_iff_ne,
    Int.not_lt, Nat.not_lt] at hrange hmonths hdays
  refine ⟨⟨hmonths.1, hmonths.2, Nat.pos_of_ne_zero hdays.1, hdays.2⟩, hrange.1, hrange.2, ?_, ?_⟩
  · exact (parseTwoDigits_ok hmonth).2.2.2
  · exact (parseTwoDigits_ok hday).2.2.2

theorem rsplitOnce_date (yearText : Text) (hmonth : month < 100) (hday : day < 100) :
    rsplitOnce '-' (yearText ++ monthDayText month day) =
        some (yearText ++ '-' :: pad 2 month, pad 2 day) ∧
      rsplitOnce '-' (yearText ++ '-' :: pad 2 month) = some (yearText, pad 2 month) := by
  have hfree : ∀ n, n < 100 → '-' ∉ pad 2 n := fun n hn => by
    rw [pad_of_lt (by simpa using hn)]
    exact not_mem_fixedDigits rfl
  have happ : yearText ++ monthDayText month day =
      (yearText ++ '-' :: pad 2 month) ++ '-' :: pad 2 day := by
    simp [monthDayText, List.append_assoc]
  rw [happ]
  exact ⟨rsplitOnce_append (hfree day hday), rsplitOnce_append (hfree month hmonth)⟩

theorem parseDate_text {yearText : Text} (hdate : CivilDate year month day) (hday : day < 100)
    (hyear : parseYear yearText = .ok year) :
    parseDate (yearText ++ monthDayText month day) = .ok (year, month, day) := by
  have hmonth : month < 100 := Nat.lt_of_le_of_lt hdate.month_le (by omega)
  obtain ⟨hcut, hcut'⟩ := rsplitOnce_date yearText hmonth hday
  have hpos := hdate.month_pos
  have hle := hdate.month_le
  have hdpos := hdate.day_pos
  have hdle := hdate.day_le
  have hmonths : rejectWhen (decide (month < 1) || decide (12 < month))
      "Date month must be between 01 and 12" = .ok () := by
    simp only [rejectWhen_ok, Bool.or_eq_false_iff, decide_eq_false_iff_not]
    omega
  have hdays : rejectWhen (day == 0 || decide (daysInMonth year month < day))
      "Date day is outside the selected month" = .ok () := by
    simp only [rejectWhen_ok, Bool.or_eq_false_iff, decide_eq_false_iff_not, beq_eq_false_iff_ne]
    omega
  unfold parseDate
  simp only [hcut, hcut', required, hyear, parseTwoDigits_pad hmonth, parseTwoDigits_pad hday,
    hmonths, hdays, bind, Except.bind, pure, Except.pure]

theorem stripSign_digits {digits : Text} (h : ∀ c ∈ digits, isDigit c = true) :
    stripSign digits = (none, digits) := by
  cases digits with
  | nil => rfl
  | cons c rest =>
    have hc := h c (.head _)
    unfold stripSign
    split
    · rename_i heq
      cases heq
      cases hc
    · rename_i heq
      cases heq
      cases hc
    · rfl

theorem stripSign_minus (digits : Text) : stripSign ('-' :: digits) = (some '-', digits) := rfl

theorem parseYear_digits {text digits : Text} {sign : Option Char} {year : Int}
    (hsign : stripSign text = (sign, digits))
    (hdigits : ∀ c ∈ digits, isDigit c = true) (hlength : 4 ≤ digits.length)
    (hyear : year = if sign = some '-' then -(number digits : Int) else number digits)
    (hlow : -999999999 ≤ year) (hhigh : year ≤ 999999999) : parseYear text = .ok year := by
  unfold parseYear
  rw [hsign]
  dsimp only
  rw [← hyear]
  have hform : (decide (digits.length < 4) || !digits.all isDigit) = false := by
    simp only [Bool.or_eq_false_iff, decide_eq_false_iff_not, Bool.not_eq_false', List.all_eq_true]
    exact ⟨by omega, hdigits⟩
  have hwide : (decide (year < -(2 ^ 63)) || decide (2 ^ 63 - 1 < year)) = false := by
    simp only [Bool.or_eq_false_iff, decide_eq_false_iff_not]
    omega
  have hrange : (decide (year < -999999999) || decide (999999999 < year)) = false := by
    simp only [Bool.or_eq_false_iff, decide_eq_false_iff_not]
    omega
  simp only [hform, hwide, hrange, rejectWhen, bind, Except.bind, pure, Except.pure,
    Bool.false_eq_true, if_false]

theorem parseYear_short {text : Text} (h : (stripSign text).2.length < 4) :
    parseYear text = .error ⟨"Date year must contain at least four digits"⟩ := by
  unfold parseYear
  simp [h, rejectWhen, bind, Except.bind]

/-- **A date comes back from its day number**, unless its year is short and negative. -/
theorem parseDate_formatDateFromDays (hdate : CivilDate year month day) (hday : day < 100)
    (hlow : -999999999 ≤ year) (hhigh : year ≤ 999999999) (hyear : ¬ ShortNegativeYear year) :
    parseDate (formatDateFromDays (daysFromCivil year month day)) = .ok (year, month, day) := by
  unfold formatDateFromDays
  rw [civilFromDays_daysFromCivil hdate]
  dsimp only
  split
  · have hnat : year.natAbs < 10 ^ 4 := by omega
    have hdigits : ∀ c ∈ fixedDigits 4 year.natAbs, isDigit c = true :=
      fun c hc => isDigit_of_mem_fixedDigits hc
    refine parseDate_text hdate hday ?_
    rw [pad_of_lt hnat]
    refine parseYear_digits (stripSign_digits hdigits) hdigits
      (Nat.le_of_eq (length_fixedDigits 4 _).symm) ?_ hlow hhigh
    rw [number_fixedDigits_of_lt hnat, if_neg (by simp)]
    omega
  · have hbound : year.natAbs < 10 ^ 20 := by omega
    have hdigits : ∀ c ∈ decimal year.natAbs, isDigit c = true :=
      fun c hc => isDigit_of_mem_decimal hc
    have hthousand : 10 ^ 3 ≤ year.natAbs := by
      unfold ShortNegativeYear at hyear
      omega
    have hlen : 3 < (decimal year.natAbs).length := lt_length_decimal hbound hthousand
    refine parseDate_text hdate hday ?_
    unfold integerText
    split
    · refine parseYear_digits (stripSign_minus _) hdigits hlen ?_ hlow hhigh
      rw [number_decimal hbound, if_pos rfl]
      omega
    · refine parseYear_digits (stripSign_digits hdigits) hdigits hlen ?_ hlow hhigh
      rw [number_decimal hbound, if_neg (by simp)]
      omega

/-- **A date of a short negative year is refused.** -/
theorem parseDate_short (hdate : CivilDate year month day) (hday : day < 100)
    (hyear : ShortNegativeYear year) (date : Int × Nat × Nat) :
    parseDate (formatDateFromDays (daysFromCivil year month day)) ≠ .ok date := by
  unfold formatDateFromDays
  rw [civilFromDays_daysFromCivil hdate]
  unfold ShortNegativeYear at hyear
  rw [if_neg (by omega)]
  have hmonth : month < 100 := Nat.lt_of_le_of_lt hdate.month_le (by omega)
  obtain ⟨hcut, hcut'⟩ := rsplitOnce_date (integerText year) hmonth hday
  have hshort : parseYear (integerText year) =
      .error ⟨"Date year must contain at least four digits"⟩ := by
    refine parseYear_short ?_
    unfold integerText
    rw [if_pos (by omega), stripSign_minus]
    have := length_decimal_le (n := year.natAbs) (k := 3) (by omega) (by omega) (by omega)
    dsimp only
    omega
  intro h
  unfold parseDate at h
  simp [hcut, hcut', required, hshort, bind, Except.bind] at h

/-! ## 3. Times of day -/

/-- `{second:02}` with the fraction. -/
def secondText (second nanosecond : Nat) : Text :=
  pad 2 second ++ if nanosecond = 0 then [] else '.' :: trimZeros (pad 9 nanosecond)

theorem clockText_eq (hour minute second nanosecond : Nat) :
    clockText hour minute second nanosecond =
      pad 2 hour ++ ':' :: (pad 2 minute ++ ':' :: secondText second nanosecond) := by
  unfold clockText secondText
  split <;> simp [List.append_assoc]

theorem isDigit_of_mem_fraction (hn : nanosecond < 10 ^ 9) (h : c ∈ trimZeros (pad 9 nanosecond)) :
    isDigit c = true := by
  have hmem := (trimZeros_isPrefix_of _).subset h
  rw [pad_of_lt hn] at hmem
  exact isDigit_of_mem_fixedDigits hmem

theorem parseFraction_trimmed (hn : nanosecond < 10 ^ 9) (hpos : nanosecond ≠ 0) :
    parseFraction (some (trimZeros (pad 9 nanosecond))) = .ok nanosecond := by
  have hdigits : ∀ c ∈ trimZeros (pad 9 nanosecond), isDigit c = true :=
    fun c hc => isDigit_of_mem_fraction hn hc
  have hpad : number (pad 9 nanosecond) = nanosecond := by
    rw [pad_of_lt hn, number_fixedDigits_of_lt hn]
  have hlength : (pad 9 nanosecond).length = 9 := by
    rw [pad_of_lt hn, length_fixedDigits]
  have hne : trimZeros (pad 9 nanosecond) ≠ [] := trimZeros_ne_nil (by rw [hpad]; exact hpos)
  have hle := (trimZeros_isPrefix_of (pad 9 nanosecond)).length_le
  have hvalue := number_trimZeros (pad 9 nanosecond)
  rw [hlength, hpad] at hvalue
  have hform : ((trimZeros (pad 9 nanosecond)).isEmpty ||
      decide (9 < (trimZeros (pad 9 nanosecond)).length) ||
      !(trimZeros (pad 9 nanosecond)).all isDigit) = false := by
    simp only [Bool.or_eq_false_iff, decide_eq_false_iff_not, Bool.not_eq_false', List.all_eq_true,
      List.isEmpty_eq_false_iff]
    exact ⟨⟨hne, by omega⟩, hdigits⟩
  unfold parseFraction
  simp only [hform, hvalue, rejectWhen, bind, Except.bind, pure, Except.pure, Bool.false_eq_true,
    if_false]

theorem parseFraction_lt {value : Option Text} (h : parseFraction value = .ok nanosecond) :
    nanosecond < 1000000000 := by
  cases value with
  | none =>
    cases h
    omega
  | some digits =>
    unfold parseFraction at h
    obtain ⟨_, hform, h⟩ := bind_eq_ok.mp h
    cases h
    simp only [rejectWhen_ok, Bool.or_eq_false_iff, decide_eq_false_iff_not, Bool.not_eq_false',
      List.all_eq_true, Nat.not_lt] at hform
    have hlt := number_lt digits hform.2
    have hpow : 10 ^ digits.length * 10 ^ (9 - digits.length) = 1000000000 := by
      rw [← Nat.pow_add, Nat.add_sub_cancel' hform.1.2]
    calc number digits * 10 ^ (9 - digits.length)
        < 10 ^ digits.length * 10 ^ (9 - digits.length) :=
          Nat.mul_lt_mul_of_pos_right hlt (Nat.pow_pos (by omega))
      _ = 1000000000 := hpow

theorem parseSecond_secondText {second : Nat} (hs : second < 60) (hn : nanosecond < 10 ^ 9) :
    parseSecond (secondText second nanosecond) = .ok (second, nanosecond) := by
  have htwo := parseTwoDigits_pad (show second < 100 by omega) "Time second"
  have hfree : '.' ∉ pad 2 second := by
    rw [pad_of_lt (by omega)]
    exact not_mem_fixedDigits rfl
  unfold parseSecond secondText
  by_cases hz : nanosecond = 0
  · subst hz
    rw [if_pos rfl, List.append_nil, splitOnce_none hfree]
    simp only [htwo, parseFraction, bind, Except.bind, pure, Except.pure]
  · rw [if_neg hz, splitOnce_append hfree]
    simp only [htwo, parseFraction_trimmed hn hz, bind, Except.bind, pure, Except.pure]

theorem parse_clockText {hour minute second : Nat} (hh : hour < 24) (hm : minute < 60)
    (hs : second < 60) (hn : nanosecond < 10 ^ 9) :
    LocalTimeValue.parse (clockText hour minute second nanosecond) =
      .ok ⟨clockText hour minute second nanosecond,
        (hour * 3600 + minute * 60 + second) * 1000000000 + nanosecond⟩ := by
  have hfree : ∀ n, n < 100 → ':' ∉ pad 2 n := fun n h => by
    rw [pad_of_lt (by simpa using h)]
    exact not_mem_fixedDigits rfl
  have hsecond : ':' ∉ secondText second nanosecond := by
    unfold secondText
    intro hmem
    rcases List.mem_append.mp hmem with hmem | hmem
    · exact hfree second (by omega) hmem
    · split at hmem
      · cases hmem
      · rcases List.mem_cons.mp hmem with hmem | hmem
        · cases hmem
        · have := isDigit_of_mem_fraction hn hmem
          cases this
  have hparts : splitAll ':' (clockText hour minute second nanosecond) =
      [pad 2 hour, pad 2 minute, secondText second nanosecond] := by
    rw [clockText_eq, splitAll_append (hfree hour (by omega)),
      splitAll_append (hfree minute (by omega)), splitAll_single hsecond]
  have hrange : (decide (23 < hour) || decide (59 < minute) || decide (59 < second)) = false := by
    simp only [Bool.or_eq_false_iff, decide_eq_false_iff_not]
    omega
  unfold LocalTimeValue.parse
  simp only [hparts, List.getD_cons_zero, List.getD_cons_succ, List.getElem?_cons_zero,
    List.getElem?_cons_succ, List.getElem?_nil, parseTwoDigits_pad (show hour < 100 by omega),
    parseTwoDigits_pad (show minute < 100 by omega), required, Option.isSome_none,
    parseSecond_secondText hs hn, hrange, rejectWhen, bind, Except.bind, pure, Except.pure,
    Bool.false_eq_true, if_false]

/-- `86_400 * 1_000_000_000`. -/
def dayNanoseconds : Nat := 86400 * 1000000000

theorem parse_formatLocalTime (h : n < dayNanoseconds) :
    LocalTimeValue.parse (formatLocalTime n) = .ok ⟨formatLocalTime n, n⟩ := by
  unfold dayNanoseconds at h
  unfold formatLocalTime
  rw [parse_clockText (by omega) (by omega) (by omega) (by omega)]
  have : (n / 3600000000000 * 3600 + n / 60000000000 % 60 * 60 + n / 1000000000 % 60) *
      1000000000 + n % 1000000000 = n := by omega
  rw [this]

/-- A parsed time of day has its canonical text. -/
theorem localTime_parse_ok {time : LocalTimeValue} (h : LocalTimeValue.parse text = .ok time) :
    time.nanoseconds < dayNanoseconds ∧ time.text = formatLocalTime time.nanoseconds := by
  unfold LocalTimeValue.parse at h
  obtain ⟨hour, _, h⟩ := bind_eq_ok.mp h
  obtain ⟨minute, _, h⟩ := bind_eq_ok.mp h
  obtain ⟨secondText, _, h⟩ := bind_eq_ok.mp h
  obtain ⟨_, _, h⟩ := bind_eq_ok.mp h
  obtain ⟨second, hsecond, h⟩ := bind_eq_ok.mp h
  obtain ⟨_, hrange, h⟩ := bind_eq_ok.mp h
  cases h
  simp only [rejectWhen_ok, Bool.or_eq_false_iff, decide_eq_false_iff_not, Nat.not_lt] at hrange
  have hnano : second.2 < 1000000000 := by
    unfold parseSecond at hsecond
    obtain ⟨_, _, hsecond⟩ := bind_eq_ok.mp hsecond
    obtain ⟨nano, hfraction, hsecond⟩ := bind_eq_ok.mp hsecond
    cases hsecond
    exact parseFraction_lt hfraction
  unfold dayNanoseconds formatLocalTime
  dsimp only
  refine ⟨by omega, ?_⟩
  congr 1 <;> omega

/-! ## 4. Offsets -/

theorem isAscii_of_isDigit (h : isDigit c = true) : isAscii c = true := by
  simp only [isDigit, Bool.and_eq_true, decide_eq_true_eq] at h
  simp only [isAscii, decide_eq_true_eq]
  omega

theorem isAscii_of_mem_pad (hn : n < 100) (h : c ∈ pad 2 n) : isAscii c = true := by
  rw [pad_of_lt (by simpa using hn)] at h
  exact isAscii_of_isDigit (isDigit_of_mem_fixedDigits h)

theorem length_pad_two (hn : n < 100) : (pad 2 n).length = 2 := by
  rw [pad_of_lt (by simpa using hn), length_fixedDigits]

/-- The offsets a time can have. -/
def ValidOffset (offset : Int) : Prop := -64800 ≤ offset ∧ offset ≤ 64800

/-- The digits of an offset: hours, minutes and, where there are any, seconds. -/
def offsetDigits (absolute : Nat) : Text :=
  pad 2 (absolute / 3600) ++ ':' :: (pad 2 (absolute % 3600 / 60) ++
    if absolute % 60 = 0 then [] else ':' :: pad 2 (absolute % 60))

theorem formatOffset_eq (h : offset ≠ 0) : formatOffset offset =
      (if offset < 0 then '-' else '+') :: offsetDigits offset.natAbs := by
  unfold formatOffset offsetDigits
  rw [if_neg h]
  dsimp only
  split <;> simp [List.append_assoc]

section OffsetDigits

variable {absolute : Nat} (habs : absolute ≤ 64800)
include habs

theorem mem_offsetDigits (h : c ∈ offsetDigits absolute) : isDigit c = true ∨ c = ':' := by
  have hpad : ∀ n, n < 100 → c ∈ pad 2 n → isDigit c = true := fun n hn hc => by
    rw [pad_of_lt (by simpa using hn)] at hc
    exact isDigit_of_mem_fixedDigits hc
  unfold offsetDigits at h
  rcases List.mem_append.mp h with h | h
  · exact .inl (hpad _ (by omega) h)
  rcases List.mem_cons.mp h with h | h
  · exact .inr h
  rcases List.mem_append.mp h with h | h
  · exact .inl (hpad _ (by omega) h)
  split at h
  · cases h
  · rcases List.mem_cons.mp h with h | h
    · exact .inr h
    · exact .inl (hpad _ (by omega) h)

theorem length_offsetDigits : (offsetDigits absolute).length ≤ 8 := by
  unfold offsetDigits
  rw [List.length_append, List.length_cons, List.length_append, length_pad_two (by omega),
    length_pad_two (by omega)]
  split
  · simp
  · rw [List.length_cons, length_pad_two (by omega)]

theorem parseOffsetFields_offsetDigits :
    parseOffsetFields (offsetDigits absolute) =
      .ok (absolute / 3600, absolute % 3600 / 60, absolute % 60) := by
  have hfree : ∀ n, n < 100 → ':' ∉ pad 2 n := fun n hn => by
    rw [pad_of_lt (by simpa using hn)]
    exact not_mem_fixedDigits rfl
  have hcolon : ':' ∈ offsetDigits absolute := by
    unfold offsetDigits
    exact List.mem_append_right _ (.head _)
  unfold parseOffsetFields
  rw [if_pos hcolon]
  unfold offsetDigits
  rw [splitAll_append (hfree _ (by omega))]
  by_cases hs : absolute % 60 = 0
  · rw [if_pos hs, List.append_nil, splitAll_single (hfree _ (by omega))]
    unfold parseOffsetParts
    simp only [parseTwoDigits_pad (show absolute / 3600 < 100 by omega),
      parseTwoDigits_pad (show absolute % 3600 / 60 < 100 by omega), bind, Except.bind, pure,
      Except.pure, hs]
  · rw [if_neg hs, splitAll_append (hfree _ (by omega)), splitAll_single (hfree _ (by omega))]
    unfold parseOffsetParts
    simp only [parseTwoDigits_pad (show absolute / 3600 < 100 by omega),
      parseTwoDigits_pad (show absolute % 3600 / 60 < 100 by omega),
      parseTwoDigits_pad (show absolute % 60 < 100 by omega), bind, Except.bind, pure,
      Except.pure]

end OffsetDigits

theorem stripSign_sign (negative : Prop) [Decidable negative] (digits : Text) :
    stripSign ((if negative then '-' else '+') :: digits) =
        (some (if negative then '-' else '+'), digits) ∧
      parseOffsetSign ((if negative then '-' else '+') :: digits) =
        .ok (if negative then -1 else 1) := by
  split <;> exact ⟨rfl, rfl⟩

/-- **An offset comes back from its text.** -/
theorem parseOffset_formatOffset (h : ValidOffset offset) :
    parseOffset (formatOffset offset) = .ok offset := by
  by_cases hzero : offset = 0
  · subst hzero
    rfl
  have habs : offset.natAbs ≤ 64800 := by
    unfold ValidOffset at h
    omega
  rw [formatOffset_eq hzero]
  have hform : (decide (9 < ((if offset < 0 then '-' else '+') ::
      offsetDigits offset.natAbs).length) || !((if offset < 0 then '-' else '+') ::
        offsetDigits offset.natAbs).all isAscii) = false := by
    have := length_offsetDigits habs
    simp only [Bool.or_eq_false_iff, decide_eq_false_iff_not, Bool.not_eq_false', List.all_eq_true,
      List.length_cons]
    refine ⟨by omega, fun c hc => ?_⟩
    rcases List.mem_cons.mp hc with rfl | hc
    · split <;> rfl
    · rcases mem_offsetDigits habs hc with hc | rfl
      · exact isAscii_of_isDigit hc
      · rfl
  have hnotZ : (if offset < 0 then '-' else '+') :: offsetDigits offset.natAbs ≠ ['Z'] := by
    intro e
    have := (List.cons.inj e).1
    split at this <;> cases this
  obtain ⟨hstrip, hsign⟩ := stripSign_sign (offset < 0) (offsetDigits offset.natAbs)
  have hrange : (decide (18 < offset.natAbs / 3600) || decide (59 < offset.natAbs % 3600 / 60) ||
      decide (59 < offset.natAbs % 60) || (offset.natAbs / 3600 == 18 &&
        (offset.natAbs % 3600 / 60 != 0 || offset.natAbs % 60 != 0))) = false := by
    simp only [Bool.or_eq_false_iff, decide_eq_false_iff_not, Bool.and_eq_false_iff,
      beq_eq_false_iff_ne, bne_eq_false_iff_eq]
    omega
  unfold parseOffset
  rw [if_neg (by rw [hform]; simp), if_neg hnotZ]
  simp only [hstrip, hsign, parseOffsetFields_offsetDigits habs, hrange, rejectWhen, bind,
    Except.bind, pure, Except.pure, Bool.false_eq_true, if_false]
  congr 1
  split <;> omega

theorem parseOffset_ok (h : parseOffset text = .ok offset) : ValidOffset offset := by
  unfold parseOffset at h
  split at h
  · cases h
  · split at h
    · cases h
      unfold ValidOffset
      omega
    · obtain ⟨sign, hsign, h⟩ := bind_eq_ok.mp h
      obtain ⟨fields, _, h⟩ := bind_eq_ok.mp h
      obtain ⟨_, hrange, h⟩ := bind_eq_ok.mp h
      cases h
      simp only [rejectWhen_ok, Bool.or_eq_false_iff, decide_eq_false_iff_not,
        Bool.and_eq_false_iff, beq_eq_false_iff_ne, bne_eq_false_iff_eq] at hrange
      have hone : sign = 1 ∨ sign = -1 := by
        unfold parseOffsetSign at hsign
        split at hsign
        · cases hsign
          exact .inl rfl
        · cases hsign
          exact .inr rfl
        · cases hsign
      unfold ValidOffset
      rcases hone with rfl | rfl <;> omega

/-! ## 5. Times with an offset -/

theorem splitAtSign_append (before : Text) {sign : Char} {rest : Text}
    (hsign : sign = '+' ∨ sign = '-') (hrest : ∀ c ∈ rest, c ≠ '+' ∧ c ≠ '-') :
    splitAtSign (before ++ sign :: rest) = some (before, sign :: rest) := by
  have hstop : (sign != '+' && sign != '-') = false := by
    rcases hsign with rfl | rfl <;> rfl
  have hsuffix : ((before ++ sign :: rest).reverse.takeWhile fun c => c != '+' && c != '-') =
      rest.reverse := by
    rw [List.reverse_append, List.reverse_cons, List.append_assoc, List.takeWhile_append_of_pos]
    · simp [hstop]
    · intro c hc
      have := hrest c (List.mem_reverse.mp hc)
      simp [this.1, this.2]
  unfold splitAtSign
  rw [hsuffix]
  simp only [List.reverse_reverse, List.length_append, List.length_cons]
  rw [if_neg (by omega), show before.length + (rest.length + 1) - rest.length - 1 = before.length
    by omega]
  simp

theorem splitTimeOffset_formatOffset {before : Text} (h : ValidOffset offset)
    (hbefore : before ≠ []) :
    splitTimeOffset (before ++ formatOffset offset) = .ok (before, formatOffset offset) := by
  by_cases hzero : offset = 0
  · subst hzero
    unfold splitTimeOffset formatOffset
    simp
  · have habs : offset.natAbs ≤ 64800 := by
      unfold ValidOffset at h
      omega
    rw [formatOffset_eq hzero]
    have hlast : (before ++ (if offset < 0 then '-' else '+') ::
        offsetDigits offset.natAbs).getLast? ≠ some 'Z' := by
      rw [List.getLast?_append_cons]
      intro hz
      rcases List.mem_cons.mp (List.mem_of_getLast? hz) with hz | hz
      · split at hz <;> cases hz
      · rcases mem_offsetDigits habs hz with hz | hz <;> cases hz
    unfold splitTimeOffset
    rw [if_neg hlast, splitAtSign_append before (by split <;> simp) fun c hc => ?_]
    · simp [required, rejectWhen, hbefore, bind, Except.bind, pure, Except.pure]
    · rcases mem_offsetDigits habs hc with hc | rfl
      · exact ⟨ne_of_isDigit hc rfl, ne_of_isDigit hc rfl⟩
      · exact ⟨by decide, by decide⟩

theorem utf8_length (h : ∀ c ∈ text, isAscii c = true) :
    (Storage.Text.utf8 text).length = text.length := by
  unfold Storage.Text.utf8
  induction text with
  | nil => rfl
  | cons c rest ih =>
    have hc := h c (.head _)
    simp only [isAscii, decide_eq_true_eq] at hc
    have hone : (String.utf8EncodeChar c).length = 1 := by
      rw [String.length_utf8EncodeChar]
      unfold Char.utf8Size
      rw [if_pos]
      have : c.val.toNat < 128 := hc
      exact UInt32.le_iff_toNat_le.mpr (Nat.le_of_lt_succ this)
    rw [List.flatMap_cons, List.length_append, hone, List.length_cons,
      ih fun d hd => h d (.tail _ hd)]
    omega

theorem formatLocalTime_short (h : n < dayNanoseconds) :
    (∀ c ∈ formatLocalTime n, isAscii c = true) ∧ (formatLocalTime n).length ≤ 18 ∧
      formatLocalTime n ≠ [] := by
  unfold dayNanoseconds at h
  unfold formatLocalTime
  rw [clockText_eq]
  unfold secondText
  have hfraction : n % 1000000000 < 10 ^ 9 := by omega
  have hlength : (trimZeros (pad 9 (n % 1000000000))).length ≤ 9 := by
    rw [pad_of_lt hfraction]
    exact Nat.le_trans (trimZeros_isPrefix_of _).length_le (Nat.le_of_eq (length_fixedDigits 9 _))
  refine ⟨fun c hc => ?_, ?_, by simp⟩
  · rcases List.mem_append.mp hc with hc | hc
    · exact isAscii_of_mem_pad (by omega) hc
    rcases List.mem_cons.mp hc with rfl | hc
    · rfl
    rcases List.mem_append.mp hc with hc | hc
    · exact isAscii_of_mem_pad (by omega) hc
    rcases List.mem_cons.mp hc with rfl | hc
    · rfl
    rcases List.mem_append.mp hc with hc | hc
    · exact isAscii_of_mem_pad (by omega) hc
    split at hc
    · cases hc
    · rcases List.mem_cons.mp hc with rfl | hc
      · rfl
      · exact isAscii_of_isDigit (isDigit_of_mem_fraction hfraction hc)
  · simp only [List.length_append, List.length_cons]
    rw [length_pad_two (by omega), length_pad_two (by omega), length_pad_two (by omega)]
    split
    · simp
    · rw [List.length_cons]
      omega

theorem formatOffset_short (h : ValidOffset offset) :
    (∀ c ∈ formatOffset offset, isAscii c = true) ∧ (formatOffset offset).length ≤ 9 := by
  by_cases hzero : offset = 0
  · have hformat : formatOffset offset = ['Z'] := if_pos hzero
    rw [hformat]
    refine ⟨fun c hc => ?_, by decide⟩
    rw [List.mem_singleton.mp hc]
    rfl
  · have habs : offset.natAbs ≤ 64800 := by
      unfold ValidOffset at h
      omega
    rw [formatOffset_eq hzero]
    have := length_offsetDigits habs
    refine ⟨fun c hc => ?_, by rw [List.length_cons]; omega⟩
    rcases List.mem_cons.mp hc with rfl | hc
    · split <;> rfl
    · rcases mem_offsetDigits habs hc with hc | rfl
      · exact isAscii_of_isDigit hc
      · rfl

theorem time_parse_format (hn : n < dayNanoseconds) (ho : ValidOffset offset) :
    TimeValue.parse (formatLocalTime n ++ formatOffset offset) =
      .ok ⟨formatLocalTime n ++ formatOffset offset, n, offset⟩ := by
  obtain ⟨hascii, hlength, hne⟩ := formatLocalTime_short hn
  obtain ⟨hascii', hlength'⟩ := formatOffset_short ho
  have hshort : rejectWhen (decide (27 <
      (Storage.Text.utf8 (formatLocalTime n ++ formatOffset offset)).length))
      "Zoned Time exceeds the supported text length" = .ok () := by
    rw [utf8_length fun c hc => (List.mem_append.mp hc).elim (hascii c) (hascii' c),
      List.length_append]
    simp only [rejectWhen_ok, decide_eq_false_iff_not]
    omega
  unfold TimeValue.parse
  simp only [hshort, splitTimeOffset_formatOffset ho hne, parse_formatLocalTime hn,
    parseOffset_formatOffset ho, bind, Except.bind, pure, Except.pure]

/-- A parsed time has its canonical text. -/
theorem time_parse_ok {time : TimeValue} (h : TimeValue.parse text = .ok time) :
    time.localNanoseconds < dayNanoseconds ∧ ValidOffset time.offsetSeconds ∧
      time.text = formatLocalTime time.localNanoseconds ++ formatOffset time.offsetSeconds := by
  unfold TimeValue.parse at h
  obtain ⟨_, _, h⟩ := bind_eq_ok.mp h
  obtain ⟨parts, _, h⟩ := bind_eq_ok.mp h
  obtain ⟨time', htime, h⟩ := bind_eq_ok.mp h
  obtain ⟨offset, hoffset, h⟩ := bind_eq_ok.mp h
  cases h
  obtain ⟨hlt, htext⟩ := localTime_parse_ok htime
  exact ⟨hlt, parseOffset_ok hoffset, by rw [← htext]⟩

/-! ## 6. Dates with times -/

/-- What is read is the value, and only where it is readable. -/
def ComesBack {ε α : Type} (read : Except ε α) (value : α) (readable : Prop) : Prop :=
  ∀ back, read = .ok back ↔ back = value ∧ readable

theorem comesBack_of {ε α : Type} {read : Except ε α} {value : α} {readable : Prop}
    (hyes : readable → read = .ok value) (hno : ∀ back, read = .ok back → readable) :
    ComesBack read value readable := by
  intro back
  constructor
  · intro hread
    have hreadable := hno back hread
    rw [hyes hreadable] at hread
    cases hread
    exact ⟨rfl, hreadable⟩
  · rintro ⟨rfl, hreadable⟩
    exact hyes hreadable

/-- A parsed date has its canonical text. -/
theorem date_parse_ok {date : DateValue} (h : DateValue.parse text = .ok date) :
    ∃ year month day, CivilDate year month day ∧ -999999999 ≤ year ∧ year ≤ 999999999 ∧
      day < 100 ∧ date = ⟨formatDate year month day, daysFromCivil year month day⟩ := by
  unfold DateValue.parse at h
  obtain ⟨⟨year, month, day⟩, hdate, h⟩ := bind_eq_ok.mp h
  cases h
  obtain ⟨hcivil, hlow, hhigh, _, hday⟩ := parseDate_ok hdate
  exact ⟨year, month, day, hcivil, hlow, hhigh, hday, rfl⟩

/-- The days whose text no reader accepts. -/
def ShortNegativeDay (days : Int) : Prop := ShortNegativeYear (civilFromDays days).1

instance (days : Int) : Decidable (ShortNegativeDay days) := by
  unfold ShortNegativeDay
  infer_instance

/-- **A parsed date comes back exactly when its year is not short and negative.** -/
theorem date_comes_back {date : DateValue} (h : DateValue.parse text = .ok date) :
    ComesBack (DateValue.parse (formatDateFromDays date.days)) date
      (¬ ShortNegativeDay date.days) := by
  obtain ⟨year, month, day, hcivil, hlow, hhigh, hday, rfl⟩ := date_parse_ok h
  unfold ShortNegativeDay
  rw [civilFromDays_daysFromCivil hcivil]
  refine comesBack_of (fun hlong => ?_) fun back hback hshort => ?_
  · unfold DateValue.parse
    rw [parseDate_formatDateFromDays hcivil hday hlow hhigh hlong]
    rfl
  · unfold DateValue.parse at hback
    obtain ⟨date, hdate, _⟩ := bind_eq_ok.mp hback
    exact parseDate_short hcivil hday hshort date hdate

theorem not_mem_formatDateFromDays (hdate : CivilDate year month day) (hday : day < 100) :
    'T' ∉ formatDateFromDays (daysFromCivil year month day) := by
  unfold formatDateFromDays
  rw [civilFromDays_daysFromCivil hdate]
  have hmonth : month < 100 := Nat.lt_of_le_of_lt hdate.month_le (by omega)
  have hpad : ∀ n, n < 100 → 'T' ∉ pad 2 n := fun n hn => by
    rw [pad_of_lt (by simpa using hn)]
    exact not_mem_fixedDigits rfl
  have htail : 'T' ∉ monthDayText month day := by
    unfold monthDayText
    intro h
    rcases List.mem_append.mp h with h | h
    · rcases List.mem_cons.mp h with h | h
      · cases h
      · exact hpad month hmonth h
    · rcases List.mem_cons.mp h with h | h
      · cases h
      · exact hpad day hday h
  dsimp only
  split
  · rename_i hsmall
    intro h
    rcases List.mem_append.mp h with h | h
    · rw [pad_of_lt (by omega)] at h
      exact not_mem_fixedDigits rfl h
    · exact htail h
  · intro h
    rcases List.mem_append.mp h with h | h
    · unfold integerText at h
      split at h
      · rcases List.mem_cons.mp h with h | h
        · cases h
        · exact not_mem_decimal rfl h
      · exact not_mem_decimal rfl h
    · exact htail h

theorem localDateTime_comes_back {text : Text} {value : LocalDateTimeValue}
    (h : LocalDateTimeValue.parse text = .ok value) :
    ComesBack (LocalDateTimeValue.parse (formatDateFromDays value.days ++ 'T' ::
      formatLocalTime value.nanoseconds)) value (¬ ShortNegativeDay value.days) := by
  unfold LocalDateTimeValue.parse at h
  obtain ⟨parts, _, h⟩ := bind_eq_ok.mp h
  obtain ⟨date, hdate, h⟩ := bind_eq_ok.mp h
  obtain ⟨time, htime, h⟩ := bind_eq_ok.mp h
  cases h
  have hback := date_comes_back hdate
  obtain ⟨hlt, htext⟩ := localTime_parse_ok htime
  have hcut : splitOnce 'T' (formatDateFromDays date.days ++ 'T' ::
      formatLocalTime time.nanoseconds) =
      some (formatDateFromDays date.days, formatLocalTime time.nanoseconds) := by
    obtain ⟨year, month, day, hcivil, _, _, hday, rfl⟩ := date_parse_ok hdate
    exact splitOnce_append (not_mem_formatDateFromDays hcivil hday)
  unfold LocalDateTimeValue.parse
  simp only [hcut, required]
  refine comesBack_of (fun hlong => ?_) fun back hread => ?_
  · simp only [bind, Except.bind, (hback date).mpr ⟨rfl, hlong⟩, parse_formatLocalTime hlt, pure,
      Except.pure, htext]
  · obtain ⟨_, hparts, hread⟩ := bind_eq_ok.mp hread
    cases hparts
    obtain ⟨again, hagain, _⟩ := bind_eq_ok.mp hread
    exact ((hback again).mp hagain).2

end Lithograph.Cypher
