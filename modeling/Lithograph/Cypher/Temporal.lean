/-
  File:      Lithograph/Cypher/Temporal.lean
  Subject:   Temporal values and their texts (`cypher/temporal.rs`, `cypher/temporal_datetime.rs`).

  Every temporal value but a duration is made by parsing a text, and keeps it beside its numbers.
  Every form parsed here is ASCII. The database of time zones is a parameter (`ZoneDatabase`).
-/
import Lithograph.Cypher.Calendar
import Lithograph.Library.Numeral
import Lithograph.Storage.Encoding

namespace Lithograph.Cypher

open Library

structure ValueError where
  message : String
  deriving DecidableEq, Repr

abbrev ValueResult (α : Type) := Except ValueError α

/-- `if condition { return Err(..) }`. -/
def rejectWhen (condition : Bool) (message : String) : ValueResult Unit :=
  if condition then .error ⟨message⟩ else .ok ()

@[simp] theorem rejectWhen_ok {condition : Bool} {message : String} {u : Unit} :
    rejectWhen condition message = .ok u ↔ condition = false := by
  cases condition <;> simp [rejectWhen]

/-- `ok_or_else`. -/
def required {α : Type} (value : Option α) (message : String) : ValueResult α :=
  match value with
  | some a => .ok a
  | none => .error ⟨message⟩

@[simp] theorem required_ok {α : Type} {value : Option α} {message : String} {a : α} :
    required value message = .ok a ↔ value = some a := by
  cases value <;> simp [required]

/-! ## 1. Dates -/

/-- `{}` of a signed number. -/
def integerText (n : Int) : Text :=
  if n < 0 then '-' :: decimal n.natAbs else decimal n.natAbs

/-- `-{month:02}-{day:02}`. -/
def monthDayText (month day : Nat) : Text := '-' :: pad 2 month ++ '-' :: pad 2 day

/-- `format_date`: the canonical text of a date. -/
def formatDate (year : Int) (month day : Nat) : Text :=
  if 0 ≤ year ∧ year ≤ 9999 then pad 4 year.natAbs ++ monthDayText month day
  else if -9999 ≤ year ∧ year < 0 then '-' :: pad 4 year.natAbs ++ monthDayText month day
  else if 9999 < year then '+' :: integerText year ++ monthDayText month day
  else integerText year ++ monthDayText month day

def formatDateFromDays (days : Int) : Text :=
  let date := civilFromDays days
  if 0 ≤ date.1 ∧ date.1 ≤ 9999 then pad 4 date.1.natAbs ++ monthDayText date.2.1 date.2.2
  else integerText date.1 ++ monthDayText date.2.1 date.2.2

def parseTwoDigits (text : Text) (name : String) : ValueResult Nat := do
  rejectWhen (text.length != 2 || !text.all isDigit) (name ++ " must contain exactly two digits")
  pure (number text)

/-- `strip_prefix(['+', '-'])`, with the sign it stripped. -/
def stripSign : Text → Option Char × Text
  | '+' :: rest => (some '+', rest)
  | '-' :: rest => (some '-', rest)
  | text => (none, text)

def parseYear (text : Text) : ValueResult Int := do
  let digits := (stripSign text).2
  rejectWhen (digits.length < 4 || !digits.all isDigit) "Date year must contain at least four digits"
  let year : Int := if (stripSign text).1 = some '-' then -(number digits) else number digits
  rejectWhen (year < -(2 ^ 63) || 2 ^ 63 - 1 < year) "Date year is outside the supported range"
  rejectWhen (year < -999999999 || 999999999 < year) "Date year is outside the Cypher range"
  pure year

def parseDate (text : Text) : ValueResult (Int × Nat × Nat) := do
  let yearMonthDay ← required (rsplitOnce '-' text) "Date must use calendar YYYY-MM-DD form"
  let yearMonth ← required (rsplitOnce '-' yearMonthDay.1) "Date must use calendar YYYY-MM-DD form"
  let year ← parseYear yearMonth.1
  let month ← parseTwoDigits yearMonth.2 "Date month"
  let day ← parseTwoDigits yearMonthDay.2 "Date day"
  rejectWhen (month < 1 || 12 < month) "Date month must be between 01 and 12"
  rejectWhen (day == 0 || daysInMonth year month < day) "Date day is outside the selected month"
  pure (year, month, day)

structure DateValue where
  text : Text
  days : Int
  deriving DecidableEq, Repr

def DateValue.parse (text : Text) : ValueResult DateValue := do
  let date ← parseDate text
  pure ⟨formatDate date.1 date.2.1 date.2.2, daysFromCivil date.1 date.2.1 date.2.2⟩

/-! ## 2. Local times -/

/-- `{hour:02}:{minute:02}:{second:02}`, and `.{fraction}` without trailing zeros where there is
    one. -/
def clockText (hour minute second nanosecond : Nat) : Text :=
  let whole := pad 2 hour ++ ':' :: pad 2 minute ++ ':' :: pad 2 second
  if nanosecond = 0 then whole else whole ++ '.' :: trimZeros (pad 9 nanosecond)

def formatLocalTime (nanoseconds : Nat) : Text :=
  clockText (nanoseconds / 3600000000000) (nanoseconds / 60000000000 % 60)
    (nanoseconds / 1000000000 % 60) (nanoseconds % 1000000000)

/-- The fraction of a second, in nanoseconds. -/
def parseFraction : Option Text → ValueResult Nat
  | none => .ok 0
  | some value => do
    rejectWhen (value.isEmpty || 9 < value.length || !value.all isDigit)
      "Time fractional second must contain one to nine digits"
    pure (number value * 10 ^ (9 - value.length))

def parseSecond (text : Text) : ValueResult (Nat × Nat) := do
  let parts : Text × Option Text :=
    match splitOnce '.' text with
    | none => (text, none)
    | some (second, fraction) => (second, some fraction)
  let second ← parseTwoDigits parts.1 "Time second"
  let nanosecond ← parseFraction parts.2
  pure (second, nanosecond)

structure LocalTimeValue where
  text : Text
  nanoseconds : Nat
  deriving DecidableEq, Repr

/-- `parse_local_time`, `LocalTimeValue::parse`. -/
def LocalTimeValue.parse (text : Text) : ValueResult LocalTimeValue := do
  let parts := splitAll ':' text
  let hour ← parseTwoDigits (parts.getD 0 []) "Time hour"
  let minute ← parseTwoDigits (parts.getD 1 []) "Time minute"
  let secondText ← required parts[2]? "Time must use HH:MM:SS form"
  rejectWhen (parts[3]?).isSome "Time contains too many ':' separators"
  let second ← parseSecond secondText
  rejectWhen (23 < hour || 59 < minute || 59 < second.1)
    "Time components are outside their valid ranges"
  pure ⟨clockText hour minute second.1 second.2,
    (hour * 3600 + minute * 60 + second.1) * 1000000000 + second.2⟩

/-! ## 3. Times with an offset -/

def formatOffset (offsetSeconds : Int) : Text :=
  if offsetSeconds = 0 then ['Z']
  else
    let sign := if offsetSeconds < 0 then '-' else '+'
    let absolute := offsetSeconds.natAbs
    let whole := sign :: pad 2 (absolute / 3600) ++ ':' :: pad 2 (absolute % 3600 / 60)
    if absolute % 60 = 0 then whole else whole ++ ':' :: pad 2 (absolute % 60)

def invalidOffsetForm : String :=
  "Time zone offset must use ±HH, ±HHMM, ±HHMMSS, ±HH:MM, or ±HH:MM:SS"

/-- The fields of an offset with colons. -/
def parseOffsetParts : List Text → ValueResult (Nat × Nat × Nat)
  | [hour, minute] => do
    let hour ← parseTwoDigits hour "Offset hour"
    let minute ← parseTwoDigits minute "Offset minute"
    pure (hour, minute, 0)
  | [hour, minute, second] => do
    let hour ← parseTwoDigits hour "Offset hour"
    let minute ← parseTwoDigits minute "Offset minute"
    let second ← parseTwoDigits second "Offset second"
    pure (hour, minute, second)
  | _ => .error ⟨invalidOffsetForm⟩

/-- The fields of an offset without colons. -/
def parseOffsetDigits (digits : Text) : ValueResult (Nat × Nat × Nat) :=
  if digits.length = 2 then do
    let hour ← parseTwoDigits digits "Offset hour"
    pure (hour, 0, 0)
  else if digits.length = 4 then do
    let hour ← parseTwoDigits (digits.take 2) "Offset hour"
    let minute ← parseTwoDigits (digits.drop 2) "Offset minute"
    pure (hour, minute, 0)
  else if digits.length = 6 then do
    let hour ← parseTwoDigits (digits.take 2) "Offset hour"
    let minute ← parseTwoDigits ((digits.drop 2).take 2) "Offset minute"
    let second ← parseTwoDigits (digits.drop 4) "Offset second"
    pure (hour, minute, second)
  else .error ⟨invalidOffsetForm⟩

def parseOffsetFields (digits : Text) : ValueResult (Nat × Nat × Nat) :=
  if ':' ∈ digits then parseOffsetParts (splitAll ':' digits) else parseOffsetDigits digits

/-- The sign of an offset. -/
def parseOffsetSign (text : Text) : ValueResult Int :=
  match (stripSign text).1 with
  | some '+' => .ok 1
  | some _ => .ok (-1)
  | none => .error ⟨"Time zone offset must start with +, -, or Z"⟩

def isAscii (c : Char) : Bool := c.toNat < 128

def parseOffset (text : Text) : ValueResult Int :=
  if 9 < text.length || !text.all isAscii then .error ⟨invalidOffsetForm⟩
  else if text = ['Z'] then .ok 0
  else do
    let sign ← parseOffsetSign text
    let fields ← parseOffsetFields (stripSign text).2
    rejectWhen (18 < fields.1 || 59 < fields.2.1 || 59 < fields.2.2 ||
      (fields.1 == 18 && (fields.2.1 != 0 || fields.2.2 != 0)))
      "Time zone offset is outside the ±18:00 range"
    pure (sign * (fields.1 * 3600 + fields.2.1 * 60 + fields.2.2 : Nat))

/-- The text up to the last sign, and from it on. -/
def splitAtSign (text : Text) : Option (Text × Text) :=
  let suffix := (text.reverse.takeWhile fun c => c != '+' && c != '-').reverse
  let index := text.length - suffix.length
  if index = 0 then none else some (text.take (index - 1), text.drop (index - 1))

def splitTimeOffset (text : Text) : ValueResult (Text × Text) :=
  if text.getLast? = some 'Z' then .ok (text.dropLast, ['Z'])
  else do
    let parts ← required (splitAtSign text) "Zoned Time requires a UTC offset"
    rejectWhen parts.1.isEmpty "Zoned Time requires a local time before its offset"
    pure parts

structure TimeValue where
  text : Text
  localNanoseconds : Nat
  offsetSeconds : Int
  deriving DecidableEq, Repr

def TimeValue.parse (text : Text) : ValueResult TimeValue := do
  rejectWhen (27 < (Storage.Text.utf8 text).length) "Zoned Time exceeds the supported text length"
  let parts ← splitTimeOffset text
  let time ← LocalTimeValue.parse parts.1
  let offset ← parseOffset parts.2
  pure ⟨time.text ++ formatOffset offset, time.nanoseconds, offset⟩

def TimeValue.instantKey (time : TimeValue) : Int :=
  time.localNanoseconds - time.offsetSeconds * 1000000000

/-! ## 4. Dates with times -/

structure LocalDateTimeValue where
  text : Text
  days : Int
  nanoseconds : Nat
  deriving DecidableEq, Repr

def LocalDateTimeValue.parse (text : Text) : ValueResult LocalDateTimeValue := do
  let parts ← required (splitOnce 'T' text)
    "LocalDateTime must contain a date and time separated by T"
  let date ← DateValue.parse parts.1
  let time ← LocalTimeValue.parse parts.2
  pure ⟨date.text ++ 'T' :: time.text, date.days, time.nanoseconds⟩

/-- The time zones that have a name, and the offset of a zone at a second (and nanosecond). -/
structure ZoneDatabase where
  known : Text → Bool
  offsetAt : Text → Int → Nat → Option Int

/-- The parts of a zone name between slashes. -/
def zonePartInvalid (part : Text) : Bool :=
  part.isEmpty || part == ['.'] || part == ['.', '.'] ||
    !part.all fun c => isAscii c && (c.isAlphanum || c == '_' || c == '-' || c == '+' || c == '.')

/-- `validate_zone_id`: the offset of a fixed zone, or none for a zone of the database. -/
def validateZoneId (zones : ZoneDatabase) (zone : Text) : ValueResult (Option Int) :=
  if zone = ['Z'] then .ok (some 0)
  else if (stripSign zone).1.isSome then (parseOffset zone).map some
  else if zone = "UTC".toList ∨ zone = "GMT".toList ∨ zone = "GMT0".toList then .ok (some 0)
  else do
    rejectWhen (zone.isEmpty || zone.head? == some '/' || zone.getLast? == some '/' ||
      (splitAll '/' zone).any zonePartInvalid) "ZonedDateTime zone id has invalid syntax"
    rejectWhen (!zones.known zone) "ZonedDateTime zone id is not a recognized IANA zone"
    pure none

def namedZoneOffset (zones : ZoneDatabase) (zone : Text) (instantNanoseconds : Int) :
    ValueResult Int := do
  rejectWhen (!zones.known zone) "ZonedDateTime zone id is not a recognized IANA zone"
  required (zones.offsetAt zone (instantNanoseconds / 1000000000)
    (instantNanoseconds % 1000000000).toNat) "ZonedDateTime is outside the IANA timezone range"

/-- The offset a zone asks for at an instant. -/
def expectedOffset (zones : ZoneDatabase) (zone : Text) (instantNanoseconds : Int) :
    ValueResult Int := do
  let fixed ← validateZoneId zones zone
  match fixed with
  | some offset => pure offset
  | none => namedZoneOffset zones zone instantNanoseconds

structure ZonedDateTimeValue where
  value : Text
  zone : Text
  instantNanoseconds : Int
  offsetSeconds : Int
  deriving DecidableEq, Repr

def nanosPerDay : Int := 86400 * 1000000000

def ZonedDateTimeValue.parse (zones : ZoneDatabase) (value zone : Text) :
    ValueResult ZonedDateTimeValue := do
  let parts ← required (splitOnce 'T' value)
    "ZonedDateTime must contain a date and time separated by T"
  let date ← DateValue.parse parts.1
  let time ← TimeValue.parse parts.2
  let instant := date.days * nanosPerDay + time.instantKey
  let expected ← expectedOffset zones zone instant
  rejectWhen (expected != time.offsetSeconds)
    "ZonedDateTime zone rules do not match the value UTC offset"
  pure ⟨date.text ++ 'T' :: time.text, zone, instant, time.offsetSeconds⟩

def ZonedDateTimeValue.storageComponents (value : ZonedDateTimeValue) :
    ValueResult (Int × Nat × Text) := do
  let seconds := value.instantNanoseconds / 1000000000
  rejectWhen (seconds < -(2 ^ 63) || 2 ^ 63 - 1 < seconds)
    "ZonedDateTime exceeds the persistent value range"
  pure (seconds, (value.instantNanoseconds % 1000000000).toNat, value.zone)

/-- A duration is made of its numbers; its text is a function of them. -/
structure DurationValue where
  months : Int
  days : Int
  seconds : Int
  nanoseconds : Int
  deriving DecidableEq, Repr

end Lithograph.Cypher
