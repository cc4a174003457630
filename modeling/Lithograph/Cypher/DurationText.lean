/-
  File:      Lithograph/Cypher/DurationText.lean
  Subject:   The text of a duration (`cypher/temporal_format.rs`).

  Seconds and nanoseconds are added up first, so the text does not show how the time is divided.

  * **`formatDuration_eq_iff`**: one text exactly for the same months, days and whole time.
-/
import Lithograph.Cypher.TemporalIdentity

namespace Lithograph.Cypher

open Library Storage

/-! ## 1. The text -/

/-- The time of a duration, in nanoseconds. -/
def DurationValue.totalNanoseconds (duration : DurationValue) : Int :=
  duration.seconds * 1000000000 + duration.nanoseconds

def formatDurationTime (totalNanoseconds : Int) : Text :=
  if totalNanoseconds = 0 then ['0', 'S']
  else
    let sign : Text := if totalNanoseconds < 0 then ['-'] else []
    let remaining := totalNanoseconds.natAbs
    let hours := remaining / 3600000000000
    let remaining := remaining % 3600000000000
    let minutes := remaining / 60000000000
    let remaining := remaining % 60000000000
    let seconds := remaining / 1000000000
    let nanos := remaining % 1000000000
    (if hours ≠ 0 then sign ++ decimal hours ++ ['H'] else []) ++
      ((if minutes ≠ 0 then sign ++ decimal minutes ++ ['M'] else []) ++
        (if seconds ≠ 0 ∨ nanos ≠ 0 then
          if nanos = 0 then sign ++ decimal seconds ++ ['S']
          else sign ++ decimal seconds ++ '.' :: trimZeros (pad 9 nanos) ++ ['S']
        else []))

def formatDuration (duration : DurationValue) : Text :=
  let years := duration.months.tdiv 12
  let remainingMonths := duration.months.tmod 12
  let output : Text := 'P' ::
    ((if years ≠ 0 then integerText years ++ ['Y'] else []) ++
      ((if remainingMonths ≠ 0 then integerText remainingMonths ++ ['M'] else []) ++
        (if duration.days ≠ 0 then integerText duration.days ++ ['D'] else [])))
  if duration.totalNanoseconds ≠ 0 ∨ output.length = 1 then
    output ++ 'T' :: formatDurationTime duration.totalNanoseconds
  else output

example : formatDuration ⟨14, -3, 0, -500000000⟩ = "P1Y2M-3DT-0.5S".toList := by decide

/-! ## 2. Parts -/

/-- A character of a number. -/
def isNumeral (c : Char) : Bool := isDigit c || c == '-' || c == '.'

/-- A number and its letter, where there is a number. -/
def part (numeral : Text) (letter : Char) : Text :=
  if numeral = [] then [] else numeral ++ [letter]

/-- The letter behind the first number. -/
def firstLetter (text : Text) : Option Char := (text.dropWhile isNumeral).head?

theorem firstLetter_part {numeral : Text} (hnumeral : ∀ c ∈ numeral, isNumeral c = true)
    {letter : Char} (hletter : isNumeral letter = false) (r : Text) :
    firstLetter (part numeral letter ++ r) =
      if numeral = [] then firstLetter r else some letter := by
  unfold part
  split
  · rfl
  · unfold firstLetter
    rw [List.append_assoc, List.dropWhile_append_of_pos hnumeral, List.singleton_append,
      List.dropWhile_cons_of_neg (by rw [hletter]; exact Bool.false_ne_true)]
    rfl

/-- **A part is told apart** where no part of its letter follows. -/
theorem part_inj {numeral numeral' : Text} (hn : ∀ c ∈ numeral, isNumeral c = true)
    (hn' : ∀ c ∈ numeral', isNumeral c = true) {letter : Char} (hletter : isNumeral letter = false)
    {r s : Text} (hr : firstLetter r ≠ some letter) (hs : firstLetter s ≠ some letter)
    (h : part numeral letter ++ r = part numeral' letter ++ s) : numeral = numeral' ∧ r = s := by
  have hfirst := congrArg firstLetter h
  rw [firstLetter_part hn hletter, firstLetter_part hn' hletter] at hfirst
  have hnot : ∀ {t : Text}, (∀ c ∈ t, isNumeral c = true) → letter ∉ t := fun ht hmem => by
    rw [ht letter hmem] at hletter
    cases hletter
  unfold part at h
  by_cases hnil : numeral = []
  · by_cases hnil' : numeral' = []
    · rw [if_pos hnil, if_pos hnil'] at h
      exact ⟨hnil.trans hnil'.symm, h⟩
    · rw [if_pos hnil, if_neg hnil'] at hfirst
      exact absurd hfirst hr
  · by_cases hnil' : numeral' = []
    · rw [if_neg hnil, if_pos hnil'] at hfirst
      exact absurd hfirst.symm hs
    · rw [if_neg hnil, if_neg hnil', List.append_assoc, List.append_assoc, List.singleton_append,
        List.singleton_append] at h
      have hsplit := congrArg (splitOnce letter) h
      rw [splitOnce_append (hnot hn), splitOnce_append (hnot hn')] at hsplit
      exact Prod.mk.inj (Option.some.inj hsplit)

variable {letter : Char} {n nanos m : Nat} {total total' : Int}

theorem part_inj_last {numeral numeral' : Text} (hn : ∀ c ∈ numeral, isNumeral c = true)
    (hn' : ∀ c ∈ numeral', isNumeral c = true) (hletter : isNumeral letter = false)
    (h : part numeral letter = part numeral' letter) : numeral = numeral' := by
  have hend : firstLetter [] ≠ some letter := fun heq => by cases heq
  refine (@part_inj _ _ hn hn' _ hletter [] [] hend hend ?_).1
  rw [List.append_nil, List.append_nil, h]

/-- A number that is left out where it is zero. -/
def numberPart (n : Int) : Text := if n = 0 then [] else integerText n

theorem isNumeral_of_isDigit {c : Char} (h : isDigit c = true) : isNumeral c = true := by
  unfold isNumeral
  rw [h]
  rfl

theorem isNumeral_integerText {n : Int} : ∀ c ∈ integerText n, isNumeral c = true := by
  intro c hc
  unfold integerText at hc
  split at hc
  · rcases List.mem_cons.mp hc with hc | hc
    · rw [hc]
      rfl
    · exact isNumeral_of_isDigit (isDigit_of_mem_decimal hc)
  · exact isNumeral_of_isDigit (isDigit_of_mem_decimal hc)

theorem isNumeral_numberPart {n : Int} : ∀ c ∈ numberPart n, isNumeral c = true := by
  unfold numberPart
  split
  · exact fun c hc => absurd hc List.not_mem_nil
  · exact isNumeral_integerText

theorem integerText_ne_nil (n : Int) : integerText n ≠ [] := by
  unfold integerText
  split
  · exact List.cons_ne_nil _ _
  · exact decimal_ne_nil _

theorem numberPart_inj {m n : Int} (hm : m.natAbs < 10 ^ 20) (hn : n.natAbs < 10 ^ 20)
    (h : numberPart m = numberPart n) : m = n := by
  unfold numberPart at h
  by_cases hzero : m = 0
  · by_cases hzero' : n = 0
    · rw [hzero, hzero']
    · rw [if_pos hzero, if_neg hzero'] at h
      exact absurd h.symm (integerText_ne_nil n)
  · by_cases hzero' : n = 0
    · rw [if_neg hzero, if_pos hzero'] at h
      exact absurd h (integerText_ne_nil m)
    · rw [if_neg hzero, if_neg hzero'] at h
      exact integerText_inj hm hn h

theorem part_numberPart (n : Int) (letter : Char) :
    part (numberPart n) letter = if n ≠ 0 then integerText n ++ [letter] else [] := by
  unfold part numberPart
  by_cases hzero : n = 0
  · rw [if_pos hzero, if_pos rfl, if_neg (not_not.mpr hzero)]
  · rw [if_neg hzero, if_neg (integerText_ne_nil n), if_pos hzero]

/-! ## 3. The time -/

/-- A part of the time has the sign of the time. -/
def signed (total : Int) (n : Nat) : Int := if total < 0 then -n else n

theorem natAbs_signed (total : Int) (n : Nat) : (signed total n).natAbs = n := by
  unfold signed
  split <;> omega

theorem integerText_signed (total : Int) (h : n ≠ 0) :
    integerText (signed total n) = (if total < 0 then ['-'] else []) ++ decimal n := by
  unfold integerText signed
  by_cases hneg : total < 0
  · rw [if_pos hneg, if_pos hneg, if_pos (by omega), Int.natAbs_neg, Int.natAbs_natCast,
      List.singleton_append]
  · rw [if_neg hneg, if_neg hneg, if_neg (by omega), Int.natAbs_natCast, List.nil_append]

theorem numberPart_signed (total : Int) (n : Nat) (letter : Char) :
    part (numberPart (signed total n)) letter =
      if n ≠ 0 then (if total < 0 then ['-'] else []) ++ decimal n ++ [letter] else [] := by
  have hzero : signed total n = 0 ↔ n = 0 := by
    unfold signed
    split <;> omega
  rw [part_numberPart]
  by_cases h : n = 0
  · rw [if_neg (not_not.mpr (hzero.mpr h)), if_neg (not_not.mpr h)]
  · rw [if_pos (fun hs => h (hzero.mp hs)), if_pos h, integerText_signed total h]

/-- The fraction of a second, behind the point. -/
def fractionText (nanos : Nat) : Text := if nanos = 0 then [] else '.' :: trimZeros (pad 9 nanos)

/-- Seconds with their fraction. -/
def secondsText (total : Int) (n : Nat) : Text :=
  (if total < 0 then ['-'] else []) ++ (decimal (n / 1000000000) ++ fractionText (n % 1000000000))

/-- The seconds behind hours and minutes; the time zero has them alone. -/
def secondsPart (total : Int) : Text :=
  if total = 0 then ['0']
  else if total.natAbs % 60000000000 = 0 then []
  else secondsText total (total.natAbs % 60000000000)

theorem secondsText_ne_nil (total : Int) (n : Nat) : secondsText total n ≠ [] := by
  unfold secondsText
  intro h
  exact decimal_ne_nil _ (List.append_eq_nil_iff.mp (List.append_eq_nil_iff.mp h).2).1

theorem formatDurationTime_eq (total : Int) : formatDurationTime total =
    part (numberPart (signed total (total.natAbs / 3600000000000))) 'H' ++
      (part (numberPart (signed total (total.natAbs % 3600000000000 / 60000000000))) 'M' ++
        part (secondsPart total) 'S') := by
  unfold formatDurationTime secondsPart
  by_cases hzero : total = 0
  · subst hzero
    rfl
  have hmod : total.natAbs % 3600000000000 % 60000000000 = total.natAbs % 60000000000 := by omega
  rw [if_neg hzero, if_neg hzero, numberPart_signed, numberPart_signed]
  simp only [hmod]
  congr 2
  generalize total.natAbs % 60000000000 = n
  by_cases hn : n = 0
  · subst hn
    rfl
  have hne := secondsText_ne_nil total n
  have hsome : n / 1000000000 ≠ 0 ∨ n % 1000000000 ≠ 0 := by omega
  unfold part
  rw [if_pos hsome, if_neg hn, if_neg hne]
  unfold secondsText fractionText
  by_cases hnanos : n % 1000000000 = 0
  · rw [if_pos hnanos, if_pos hnanos, List.append_nil]
  · rw [if_neg hnanos, if_neg hnanos]
    simp only [List.append_assoc]

theorem isNumeral_fractionText (h : nanos < 10 ^ 9) :
    ∀ c ∈ fractionText nanos, isNumeral c = true := by
  intro c hc
  unfold fractionText at hc
  split at hc
  · cases hc
  · rcases List.mem_cons.mp hc with hc | hc
    · rw [hc]
      rfl
    · exact isNumeral_of_isDigit (isDigit_of_mem_fraction h hc)

theorem isNumeral_secondsPart {total : Int} : ∀ c ∈ secondsPart total, isNumeral c = true := by
  intro c hc
  unfold secondsPart at hc
  split at hc
  · rw [List.mem_singleton.mp hc]
    rfl
  split at hc
  · cases hc
  · unfold secondsText at hc
    rcases List.mem_append.mp hc with hc | hc
    · split at hc
      · rw [List.mem_singleton.mp hc]
        rfl
      · cases hc
    · rcases List.mem_append.mp hc with hc | hc
      · exact isNumeral_of_isDigit (isDigit_of_mem_decimal hc)
      · exact isNumeral_fractionText (Nat.mod_lt _ (by omega)) c hc

/-- Where a number with a fraction is cut, and what it reads. -/
theorem splitOnce_fraction (k : Nat) (hnanos : nanos < 10 ^ 9) :
    (nanos = 0 ∧ splitOnce '.' (decimal k ++ fractionText nanos) = none ∧
        decimal k ++ fractionText nanos = decimal k) ∨
      ∃ fraction, splitOnce '.' (decimal k ++ fractionText nanos) = some (decimal k, fraction) ∧
        parseFraction (some fraction) = .ok nanos := by
  unfold fractionText
  by_cases hzero : nanos = 0
  · rw [if_pos hzero, List.append_nil]
    exact .inl ⟨hzero, splitOnce_none (not_mem_decimal rfl), rfl⟩
  · rw [if_neg hzero]
    exact .inr ⟨_, splitOnce_append (not_mem_decimal rfl), parseFraction_trimmed hnanos hzero⟩

theorem decimal_inj (hm : m < 10 ^ 20) (hn : n < 10 ^ 20) (h : decimal m = decimal n) : m = n := by
  have hnumber := congrArg number h
  rw [number_decimal hm, number_decimal hn] at hnumber
  exact hnumber

theorem fraction_inj {nanos' : Nat} (hm : m < 10 ^ 20) (hn : n < 10 ^ 20)
    (hnanos : nanos < 10 ^ 9) (hnanos' : nanos' < 10 ^ 9)
    (h : decimal m ++ fractionText nanos = decimal n ++ fractionText nanos') :
    m = n ∧ nanos = nanos' := by
  rcases splitOnce_fraction m hnanos with ⟨hzero, hnone, hwhole⟩ | ⟨fraction, hcut, hread⟩ <;>
    rcases splitOnce_fraction n hnanos' with ⟨hzero', hnone', hwhole'⟩ | ⟨fraction', hcut', hread'⟩
  · rw [hwhole, hwhole'] at h
    exact ⟨decimal_inj hm hn h, hzero.trans hzero'.symm⟩
  · rw [h, hcut'] at hnone
    cases hnone
  · rw [← h, hcut] at hnone'
    cases hnone'
  · rw [h, hcut'] at hcut
    obtain ⟨hnumber, hfraction⟩ := Prod.mk.inj (Option.some.inj hcut)
    rw [hfraction, hread] at hread'
    exact ⟨(decimal_inj hn hm hnumber).symm, Except.ok.inj hread'⟩

theorem stripSign_decimal (k : Nat) (rest : Text) :
    stripSign (decimal k ++ rest) = (none, decimal k ++ rest) := by
  have hdigit : ∀ c ∈ decimal k, isDigit c = true := fun c hc => isDigit_of_mem_decimal hc
  cases hdecimal : decimal k with
  | nil => exact absurd hdecimal (decimal_ne_nil k)
  | cons c digits =>
    rw [hdecimal] at hdigit
    have hc := hdigit c (.head _)
    unfold stripSign
    split
    · rename_i heq
      rw [(List.cons.inj heq).1] at hc
      cases hc
    · rename_i heq
      rw [(List.cons.inj heq).1] at hc
      cases hc
    · rfl

theorem stripSign_secondsText (total : Int) (n : Nat) : stripSign (secondsText total n) =
    (if total < 0 then some '-' else none,
      decimal (n / 1000000000) ++ fractionText (n % 1000000000)) := by
  unfold secondsText
  by_cases hneg : total < 0
  · rw [if_pos hneg, if_pos hneg, List.singleton_append, stripSign_minus]
  · rw [if_neg hneg, if_neg hneg, List.nil_append, stripSign_decimal]

/-- **Seconds are read from their text.** -/
theorem secondsText_inj (hm : m < 10 ^ 20) (hn : n < 10 ^ 20)
    (h : secondsText total m = secondsText total' n) : (total < 0 ↔ total' < 0) ∧ m = n := by
  have hparts := congrArg stripSign h
  rw [stripSign_secondsText, stripSign_secondsText] at hparts
  obtain ⟨hsign, hbody⟩ := Prod.mk.inj hparts
  obtain ⟨hwhole, hnanos⟩ := fraction_inj (by omega) (by omega) (Nat.mod_lt _ (by omega))
    (Nat.mod_lt _ (by omega)) hbody
  refine ⟨?_, by omega⟩
  by_cases hneg : total < 0
  · by_cases hneg' : total' < 0
    · exact iff_of_true hneg hneg'
    · rw [if_pos hneg, if_neg hneg'] at hsign
      cases hsign
  · by_cases hneg' : total' < 0
    · rw [if_neg hneg, if_pos hneg'] at hsign
      cases hsign
    · exact iff_of_false hneg hneg'

theorem secondsPart_cases (total : Int) :
    (total = 0 ∧ secondsPart total = secondsText 0 0) ∨
      (total ≠ 0 ∧ total.natAbs % 60000000000 = 0 ∧ secondsPart total = []) ∨
      (total ≠ 0 ∧ total.natAbs % 60000000000 ≠ 0 ∧
        secondsPart total = secondsText total (total.natAbs % 60000000000)) := by
  unfold secondsPart
  by_cases hzero : total = 0
  · rw [if_pos hzero]
    exact .inl ⟨hzero, by decide⟩
  by_cases hrest : total.natAbs % 60000000000 = 0
  · rw [if_neg hzero, if_pos hrest]
    exact .inr (.inl ⟨hzero, hrest, rfl⟩)
  · rw [if_neg hzero, if_neg hrest]
    exact .inr (.inr ⟨hzero, hrest, rfl⟩)

theorem secondsPart_inj (h : secondsPart total = secondsPart total') : (total = 0 ↔ total' = 0) ∧
      signed total (total.natAbs % 60000000000) = signed total' (total'.natAbs % 60000000000) := by
  have hbound : ∀ n : Nat, n % 60000000000 < 10 ^ 20 := fun n => by omega
  rcases secondsPart_cases total with ⟨hz, ht⟩ | ⟨hz, hrest, ht⟩ | ⟨hz, hrest, ht⟩ <;>
    rcases secondsPart_cases total' with ⟨hz', ht'⟩ | ⟨hz', hrest', ht'⟩ | ⟨hz', hrest', ht'⟩ <;>
    rw [ht, ht'] at h
  · rw [hz, hz']
    exact ⟨Iff.rfl, rfl⟩
  · exact absurd h (secondsText_ne_nil _ _)
  · exact absurd (secondsText_inj (by omega) (hbound _) h).2.symm hrest'
  · exact absurd h.symm (secondsText_ne_nil _ _)
  · rw [hrest, hrest']
    unfold signed
    exact ⟨iff_of_false hz hz', by split <;> split <;> omega⟩
  · exact absurd h.symm (secondsText_ne_nil _ _)
  · exact absurd (secondsText_inj (hbound _) (by omega) h).2 hrest
  · exact absurd h (secondsText_ne_nil _ _)
  · obtain ⟨hsign, hsame⟩ := secondsText_inj (hbound _) (hbound _) h
    refine ⟨iff_of_false hz hz', ?_⟩
    unfold signed
    rw [hsame]
    simp only [hsign]

theorem signed_parts (total : Int) : total =
    signed total (total.natAbs / 3600000000000) * 3600000000000 +
      signed total (total.natAbs % 3600000000000 / 60000000000) * 60000000000 +
      signed total (total.natAbs % 60000000000) := by
  unfold signed
  split <;> omega

theorem firstLetter_seconds (total : Int) (hletter : 'S' ≠ letter) :
    firstLetter (part (secondsPart total) 'S') ≠ some letter := by
  have hfirst := @firstLetter_part _ (@isNumeral_secondsPart total) 'S' rfl []
  rw [List.append_nil] at hfirst
  rw [hfirst]
  split
  · exact fun h => by cases h
  · exact fun h => hletter (Option.some.inj h)

theorem firstLetter_minutes (n total : Int) :
    firstLetter (part (numberPart n) 'M' ++ part (secondsPart total) 'S') ≠ some 'H' := by
  rw [firstLetter_part isNumeral_numberPart rfl]
  split
  · exact firstLetter_seconds total (by decide)
  · decide

/-- **A time is read from its text.** -/
theorem formatDurationTime_inj (hlt : total.natAbs < 10 ^ 30) (hlt' : total'.natAbs < 10 ^ 30)
    (h : formatDurationTime total = formatDurationTime total') : total = total' := by
  rw [formatDurationTime_eq, formatDurationTime_eq] at h
  obtain ⟨hhours, h⟩ := part_inj isNumeral_numberPart isNumeral_numberPart rfl
    (firstLetter_minutes _ _) (firstLetter_minutes _ _) h
  obtain ⟨hminutes, h⟩ := part_inj isNumeral_numberPart isNumeral_numberPart rfl
    (firstLetter_seconds _ (by decide)) (firstLetter_seconds _ (by decide)) h
  have hseconds := part_inj_last isNumeral_secondsPart isNumeral_secondsPart rfl h
  have hbound : ∀ {t : Int}, t.natAbs < 10 ^ 30 →
      (signed t (t.natAbs / 3600000000000)).natAbs < 10 ^ 20 ∧
        (signed t (t.natAbs % 3600000000000 / 60000000000)).natAbs < 10 ^ 20 := fun ht => by
    rw [natAbs_signed, natAbs_signed]
    omega
  rw [signed_parts total, signed_parts total', numberPart_inj (hbound hlt).1 (hbound hlt').1 hhours,
    numberPart_inj (hbound hlt).2 (hbound hlt').2 hminutes, (secondsPart_inj hseconds).2]

/-! ## 4. The whole text -/

/-- The time, where it is written. -/
def timePart (duration : DurationValue) : Text :=
  if duration.totalNanoseconds ≠ 0 ∨ (duration.months = 0 ∧ duration.days = 0) then
    'T' :: formatDurationTime duration.totalNanoseconds
  else []

theorem months_eq_zero (months : Int) : months = 0 ↔ months.tdiv 12 = 0 ∧ months.tmod 12 = 0 := by
  constructor
  · intro h
    rw [h]
    exact ⟨rfl, rfl⟩
  · have hsum := Int.mul_tdiv_add_tmod months 12
    omega

theorem formatDuration_eq (duration : DurationValue) : formatDuration duration =
    'P' :: (part (numberPart (duration.months.tdiv 12)) 'Y' ++
      (part (numberPart (duration.months.tmod 12)) 'M' ++
        (part (numberPart duration.days) 'D' ++ timePart duration))) := by
  unfold formatDuration timePart
  simp only [← part_numberPart]
  have hlength : ∀ n letter, (part (numberPart n) letter).length = 0 ↔ n = 0 := by
    intro n letter
    rw [List.length_eq_zero_iff, part_numberPart]
    by_cases hn : n = 0
    · simp [hn]
    · simp [hn]
  have hshort : ('P' :: (part (numberPart (duration.months.tdiv 12)) 'Y' ++
      (part (numberPart (duration.months.tmod 12)) 'M' ++
        part (numberPart duration.days) 'D'))).length = 1 ↔
      duration.months = 0 ∧ duration.days = 0 := by
    rw [months_eq_zero, List.length_cons, List.length_append, List.length_append]
    have hyears := hlength (duration.months.tdiv 12) 'Y'
    have hrest := hlength (duration.months.tmod 12) 'M'
    have hdays := hlength duration.days 'D'
    omega
  simp only [hshort]
  split
  · simp only [List.cons_append, List.append_assoc]
  · rw [List.append_nil]

/-- The numbers have no more digits than are written. -/
def DurationValue.Written (duration : DurationValue) : Prop :=
  duration.months.natAbs < 10 ^ 20 ∧ duration.days.natAbs < 10 ^ 20 ∧
    duration.totalNanoseconds.natAbs < 10 ^ 30

theorem firstLetter_time (duration : DurationValue) (hletter : 'T' ≠ letter) :
    firstLetter (timePart duration) ≠ some letter := by
  unfold timePart
  split
  · exact fun h => hletter (Option.some.inj h)
  · exact fun h => by cases h

theorem firstLetter_days (n : Int) (duration : DurationValue) (hletter : 'T' ≠ letter)
    (hletter' : 'D' ≠ letter) :
    firstLetter (part (numberPart n) 'D' ++ timePart duration) ≠ some letter := by
  rw [firstLetter_part isNumeral_numberPart rfl]
  split
  · exact firstLetter_time duration hletter
  · exact fun h => hletter' (Option.some.inj h)

theorem firstLetter_months (m n : Int) (duration : DurationValue) :
    firstLetter (part (numberPart m) 'M' ++ (part (numberPart n) 'D' ++ timePart duration)) ≠
      some 'Y' := by
  rw [firstLetter_part isNumeral_numberPart rfl]
  split
  · exact firstLetter_days n duration (by decide) (by decide)
  · decide

/-- **Durations have one text exactly when their months, days and whole time are the same.** -/
theorem formatDuration_eq_iff {duration duration' : DurationValue} (h : duration.Written)
    (h' : duration'.Written) : formatDuration duration = formatDuration duration' ↔
      duration.months = duration'.months ∧ duration.days = duration'.days ∧
        duration.totalNanoseconds = duration'.totalNanoseconds := by
  rw [formatDuration_eq, formatDuration_eq]
  constructor
  · intro heq
    obtain ⟨hyears, heq⟩ := part_inj isNumeral_numberPart isNumeral_numberPart rfl
      (firstLetter_months _ _ _) (firstLetter_months _ _ _) (List.cons.inj heq).2
    obtain ⟨hrest, heq⟩ := part_inj isNumeral_numberPart isNumeral_numberPart rfl
      (firstLetter_days _ _ (by decide) (by decide)) (firstLetter_days _ _ (by decide) (by decide))
      heq
    obtain ⟨hdays, htime⟩ := part_inj isNumeral_numberPart isNumeral_numberPart rfl
      (firstLetter_time _ (by decide)) (firstLetter_time _ (by decide)) heq
    have hmonths : ∀ {d : DurationValue}, d.Written → (d.months.tdiv 12).natAbs < 10 ^ 20 ∧
        (d.months.tmod 12).natAbs < 10 ^ 20 := fun hd => by
      rw [Int.natAbs_tdiv, Int.natAbs_tmod]
      exact ⟨(Nat.div_le_self _ _).trans_lt hd.1, (Nat.mod_le _ _).trans_lt hd.1⟩
    have hsame : duration.months = duration'.months := by
      rw [← Int.mul_tdiv_add_tmod duration.months 12, ← Int.mul_tdiv_add_tmod duration'.months 12,
        numberPart_inj (hmonths h).1 (hmonths h').1 hyears,
        numberPart_inj (hmonths h).2 (hmonths h').2 hrest]
    have hsameDays := numberPart_inj h.2.1 h'.2.1 hdays
    refine ⟨hsame, hsameDays, ?_⟩
    unfold timePart at htime
    rw [hsame, hsameDays] at htime
    by_cases htotal : duration.totalNanoseconds = 0 <;>
      by_cases htotal' : duration'.totalNanoseconds = 0
    · rw [htotal, htotal']
    · by_cases hshort : duration'.months = 0 ∧ duration'.days = 0
      · rw [if_pos (.inr hshort), if_pos (.inr hshort)] at htime
        exact formatDurationTime_inj h.2.2 h'.2.2 (List.cons.inj htime).2
      · rw [if_neg (not_or.mpr ⟨not_not.mpr htotal, hshort⟩), if_pos (.inl htotal')] at htime
        cases htime
    · by_cases hshort : duration'.months = 0 ∧ duration'.days = 0
      · rw [if_pos (.inr hshort), if_pos (.inr hshort)] at htime
        exact formatDurationTime_inj h.2.2 h'.2.2 (List.cons.inj htime).2
      · rw [if_pos (.inl htotal), if_neg (not_or.mpr ⟨not_not.mpr htotal', hshort⟩)] at htime
        cases htime
    · rw [if_pos (.inl htotal), if_pos (.inl htotal')] at htime
      exact formatDurationTime_inj h.2.2 h'.2.2 (List.cons.inj htime).2
  · intro hsame
    obtain ⟨hmonths, hdays, htotal⟩ := hsame
    unfold timePart
    rw [hmonths, hdays, htotal]

end Lithograph.Cypher
