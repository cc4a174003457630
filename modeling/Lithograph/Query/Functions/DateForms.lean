/-
  File:      Lithograph/Query/Functions/DateForms.lean
  Subject:   The components of a date, and dates built from them (`query/expression/properties.rs`,
             `query/functions/instant.rs`).

  Building counts on from the first day of the year, quarter or week-year and refuses what lies
  behind its end. The date of the clock is a parameter.

  * **`dateOfMap_reads`**: a map of components is accepted just where a date has them, and gives it,
    but for the years -999 to -1.
-/
import Lithograph.Cypher.TemporalBuild
import Lithograph.Cypher.Value
import Lithograph.Storage.Decoding

namespace Lithograph.Query.Functions

open Library Storage Cypher

/-! ## 1. Reading -/

def propertyError (key : String) : QueryError :=
  ⟨.type, "property " ++ key ++ " is not available on this value"⟩

/-- `iso_week`: the week-year and the week. -/
def isoWeek (days dayOfWeek : Int) : Int × Int :=
  let thursday := days + (4 - dayOfWeek)
  let weekYear := (civilFromDays thursday).1
  let januaryFourth := daysFromCivil weekYear 1 4
  let firstMonday := januaryFourth - (januaryFourth + 3) % 7
  (weekYear, (days - firstMonday) / 7 + 1)

def dateProperty (days : Int) (key : String) : QueryResult Value :=
  let date := civilFromDays days
  let ordinalDay := days - daysFromCivil date.1 1 1 + 1
  let dayOfWeek := (days + 3) % 7 + 1
  let quarter := (date.2.1 - 1) / 3 + 1
  let quarterStart := daysFromCivil date.1 ((quarter - 1) * 3 + 1) 1
  let week := isoWeek days dayOfWeek
  match String.ofList (key.toList.map Char.toLower) with
  | "year" => .ok (.integer date.1)
  | "quarter" => .ok (.integer quarter)
  | "month" => .ok (.integer date.2.1)
  | "week" => .ok (.integer week.2)
  | "weekyear" => .ok (.integer week.1)
  | "dayofquarter" | "quarterday" => .ok (.integer (days - quarterStart + 1))
  | "day" => .ok (.integer date.2.2)
  | "ordinalday" => .ok (.integer ordinalDay)
  | "dayofweek" | "weekday" => .ok (.integer dayOfWeek)
  | _ => .error (propertyError key)

/-! ## 2. Building -/

def temporalTypeError {α : Type} (name : String) : QueryResult α :=
  .error ⟨.type, name ++ "() input has an incompatible type"⟩

/-- `map.get(name)`. -/
def mapGet (map : List (Text × Value)) (name : String) : Option Value :=
  (map.find? fun entry => entry.1 = name.toList).map Prod.snd

/-- `map.contains_key(name)`. -/
def containsKey (map : List (Text × Value)) (name : String) : Bool := (mapGet map name).isSome

def optionalInteger (map : List (Text × Value)) (name : String) : QueryResult (Option Int) :=
  match mapGet map name with
  | none => .ok none
  | some (.integer value) => .ok (some value)
  | some _ => temporalTypeError ("temporal field " ++ name ++ " must be Integer")

def localComponents (value : Cypher.ZonedDateTimeValue) : ValueResult (Int × Nat) := do
  let instant := value.instantNanoseconds + value.offsetSeconds * 1000000000
  rejectWhen (instant < -(2 ^ 127) || 2 ^ 127 - 1 < instant) "ZonedDateTime local value overflow"
  let days := instant / nanosPerDay
  rejectWhen (days < -(2 ^ 63) || 2 ^ 63 - 1 < days) "ZonedDateTime exceeds the Cypher date range"
  pure (days, (instant % nanosPerDay).toNat)

def dateValueDays : Value → QueryResult Int
  | .date value => .ok value.days
  | .localDateTime value => .ok value.days
  | .zonedDateTime value => (ofValue (localComponents value)).map Prod.fst
  | _ => temporalTypeError "date/datetime map base"

def rejectDateFields (map : List (Text × Value)) (names : List String) : QueryResult Unit :=
  match names.find? (containsKey map) with
  | some name => .error ⟨.semantic,
      "temporal field " ++ name ++ " is incompatible with the selected date form"⟩
  | none => .ok ()

def unsignedComponent (value : Int) (name : String) : QueryResult Nat :=
  if 0 ≤ value ∧ value < 2 ^ 32 then .ok value.toNat
  else .error ⟨.type, "temporal field " ++ name ++ " is outside its valid range"⟩

def isoWeekDate (year : Int) (week weekday : Nat) : QueryResult Int :=
  if week = 0 ∨ 53 < week ∨ ¬ (1 ≤ weekday ∧ weekday ≤ 7) then
    temporalTypeError "week date component"
  else
    let januaryFourth := daysFromCivil year 1 4
    let firstMonday := januaryFourth - (januaryFourth + 3) % 7
    let days := firstMonday + ((week : Int) - 1) * 7 + ((weekday : Int) - 1)
    let thursday := days + (4 - weekday)
    if (civilFromDays thursday).1 ≠ year then temporalTypeError "week date component"
    else .ok days

def quarterDate (year : Int) (quarter day : Nat) : QueryResult Int :=
  if ¬ (1 ≤ quarter ∧ quarter ≤ 4) ∨ day = 0 then temporalTypeError "quarter date component"
  else
    let month := (quarter - 1) * 3 + 1
    let start := daysFromCivil year month 1
    let next := if quarter = 4 then (year + 1, 1) else (year, month + 3)
    let stop := daysFromCivil next.1 next.2 1
    let result := start + ((day : Int) - 1)
    if stop ≤ result then temporalTypeError "quarter date component" else .ok result

def ordinalDate (year : Int) (ordinal : Nat) : QueryResult Int :=
  if ordinal = 0 then temporalTypeError "ordinal date component"
  else
    let start := daysFromCivil year 1 1
    let stop := daysFromCivil (year + 1) 1 1
    let result := start + ((ordinal : Int) - 1)
    if stop ≤ result then temporalTypeError "ordinal date component" else .ok result

def canonicalDate (year : Int) (month day : Nat) : QueryResult Text :=
  (ofValue (DateValue.fromComponents year month day)).map DateValue.text

def canonicalDateFromDays (days : Int) : QueryResult Text :=
  (ofValue (DateValue.fromDays days)).map DateValue.text

/-- The week form. -/
def weekForm (map : List (Text × Value)) (base : Option Int) (year week : Int) :
    QueryResult Text := do
  rejectDateFields map ["month", "day", "quarter", "dayOfQuarter", "ordinalDay"]
  let explicit ← optionalInteger map "dayOfWeek"
  let weekday := (explicit.or (base.map fun days => (days + 3) % 7 + 1)).getD 1
  let week ← unsignedComponent week "week"
  let weekday ← unsignedComponent weekday "dayOfWeek"
  let days ← isoWeekDate year week weekday
  canonicalDateFromDays days

/-- The quarter form. -/
def quarterForm (map : List (Text × Value)) (base : Option Int) (year quarter : Int) :
    QueryResult Text := do
  rejectDateFields map ["month", "day", "week", "dayOfWeek", "ordinalDay"]
  let explicit ← optionalInteger map "dayOfQuarter"
  let baseDay := base.map fun days =>
    days - daysFromCivil (civilFromDays days).1 (((civilFromDays days).2.1 - 1) / 3 * 3 + 1) 1 + 1
  let day := (explicit.or baseDay).getD 1
  let quarter ← unsignedComponent quarter "quarter"
  let day ← unsignedComponent day "dayOfQuarter"
  let days ← quarterDate year quarter day
  canonicalDateFromDays days

/-- The ordinal form. -/
def ordinalForm (map : List (Text × Value)) (year ordinal : Int) : QueryResult Text := do
  rejectDateFields map ["month", "day", "week", "dayOfWeek", "quarter", "dayOfQuarter"]
  let ordinal ← unsignedComponent ordinal "ordinalDay"
  let days ← ordinalDate year ordinal
  canonicalDateFromDays days

/-- The calendar form. -/
def calendarForm (map : List (Text × Value)) (base : Option Int) (year : Int) :
    QueryResult Text := do
  let baseDate := (base.map civilFromDays).getD (0, 1, 1)
  refuseWhen (base.isNone && containsKey map "day" && !containsKey map "month")
    ⟨.semantic, "date map day requires month"⟩
  let month ← optionalInteger map "month"
  let day ← optionalInteger map "day"
  let month ← unsignedComponent (month.getD baseDate.2.1) "month"
  let day ← unsignedComponent (day.getD baseDate.2.2) "day"
  canonicalDate year month day

def dateFromMap (map : List (Text × Value)) : QueryResult Text := do
  refuseWhen map.isEmpty ⟨.semantic, "date()/datetime() map must not be empty"⟩
  let base ← ((mapGet map "date").or (mapGet map "datetime")).mapM dateValueDays
  let week ← optionalInteger map "week"
  let quarter ← optionalInteger map "quarter"
  let ordinal ← optionalInteger map "ordinalDay"
  let inherited := base.map fun days =>
    if week.isSome then (civilFromDays (days + (4 - ((days + 3) % 7 + 1)))).1
    else (civilFromDays days).1
  let explicit ← optionalInteger map "year"
  let year ← match explicit.or inherited with
    | some year => .ok year
    | none => .error ⟨.type, "temporal field year must be Integer"⟩
  let _ ← ofValue (DateValue.fromComponents year 1 1)
  refuseWhen (1 < ([week, quarter, ordinal].filter Option.isSome).length)
    ⟨.semantic, "date map cannot combine week, quarter, and ordinal forms"⟩
  match week, quarter, ordinal with
  | some week, _, _ => weekForm map base year week
  | none, some quarter, _ => quarterForm map base year quarter
  | none, none, some ordinal => ordinalForm map year ordinal
  | none, none, none => calendarForm map base year

def dateFields : List String :=
  ["date", "year", "month", "day", "week", "dayOfWeek", "quarter", "dayOfQuarter", "ordinalDay",
    "timezone"]

def dateComponentFields : List String :=
  ["year", "month", "day", "week", "dayOfWeek", "quarter", "dayOfQuarter", "ordinalDay"]

def timezoneOnly (map : List (Text × Value)) : Bool :=
  map.length == 1 && containsKey map "timezone"

def validateDateFieldShape (map : List (Text × Value)) : QueryResult Unit := do
  let hasDateBase := containsKey map "date" || containsKey map "datetime"
  if !hasDateBase && !dateComponentFields.any (containsKey map) then pure ()
  else
    refuseWhen (!hasDateBase && !containsKey map "year")
      ⟨.semantic, "temporal date components require year"⟩
    refuseWhen (containsKey map "day" && !hasDateBase && !containsKey map "month")
      ⟨.semantic, "temporal field day requires month"⟩
    refuseWhen (containsKey map "dayOfWeek" && !containsKey map "week")
      ⟨.semantic, "temporal field dayOfWeek requires week"⟩
    refuseWhen (containsKey map "dayOfQuarter" && !containsKey map "quarter")
      ⟨.semantic, "temporal field dayOfQuarter requires quarter"⟩

/-- `validate_temporal_map` for the target `Date`; the checks of extractors and of epochs are about
    fields that the names let through for no date. -/
def validateDateMap (map : List (Text × Value)) : QueryResult Unit := do
  refuseWhen map.isEmpty ⟨.semantic, "temporal constructor map must not be empty"⟩
  match map.find? fun entry => !dateFields.any fun field => field.toList = entry.1 with
  | some entry => .error ⟨.semantic,
      "temporal field " ++ String.ofList entry.1 ++ " is not available for this constructor"⟩
  | none =>
    if timezoneOnly map then pure ()
    else
      refuseWhen (containsKey map "timezone")
        ⟨.semantic, "timezone can only be combined with components for a zoned temporal value"⟩
      validateDateFieldShape map

def timezone (map : List (Text × Value)) : QueryResult Text :=
  match mapGet map "timezone" with
  | some (.string value) => .ok value
  | _ => .error ⟨.type, "temporal timezone must be String"⟩

def dateFromMapInput (current : Text → QueryResult Text) (map : List (Text × Value)) :
    QueryResult Text := do
  if timezoneOnly map then
    let zone ← timezone map
    current zone
  else
    validateDateMap map
    dateFromMap map

/-- `date` of one map. -/
def dateOfMap (current : Text → QueryResult Text) (map : List (Text × Value)) :
    QueryResult DateValue := do
  let text ← dateFromMapInput current map
  ofValue (DateValue.parse text)

/-! ## 3. The forms -/

/-- The forms a date has besides the calendar. -/
inductive DateForm where
  | week | quarter | ordinal
  deriving DecidableEq, Repr

/-- The fields of the map, in order, each with the component it is read from. -/
def DateForm.names : DateForm → List (String × String)
  | .week => [("dayOfWeek", "dayOfWeek"), ("week", "week"), ("year", "weekYear")]
  | .quarter => [("dayOfQuarter", "dayOfQuarter"), ("quarter", "quarter"), ("year", "year")]
  | .ordinal => [("ordinalDay", "ordinalDay"), ("year", "year")]

/-- The map of the form. -/
def DateForm.fields (form : DateForm) (values : String → Int) : List (Text × Value) :=
  form.names.map fun name => (name.1.toList, .integer (values name.1))

/-- The components of the day are the values. -/
def Reads (form : DateForm) (days : Int) (values : String → Int) : Prop :=
  ∀ name ∈ form.names, dateProperty days name.2 = .ok (.integer (values name.1))

/-- The day that the form builds. -/
def DateForm.day (form : DateForm) (values : String → Int) : QueryResult Int :=
  match form with
  | .week => do
    let week ← unsignedComponent (values "week") "week"
    let weekday ← unsignedComponent (values "dayOfWeek") "dayOfWeek"
    isoWeekDate (values "year") week weekday
  | .quarter => do
    let quarter ← unsignedComponent (values "quarter") "quarter"
    let day ← unsignedComponent (values "dayOfQuarter") "dayOfQuarter"
    quarterDate (values "year") quarter day
  | .ordinal => do
    let ordinal ← unsignedComponent (values "ordinalDay") "ordinalDay"
    ordinalDate (values "year") ordinal

theorem weekForm_fields (values : String → Int) (year week : Int)
    (hyear : year = values "year") (hweek : week = values "week") :
    weekForm (DateForm.week.fields values) none year week =
      DateForm.week.day values >>= canonicalDateFromDays := by
  have hreject : rejectDateFields (DateForm.week.fields values)
      ["month", "day", "quarter", "dayOfQuarter", "ordinalDay"] = .ok () := rfl
  have hday : optionalInteger (DateForm.week.fields values) "dayOfWeek" =
      .ok (some (values "dayOfWeek")) := rfl
  rw [weekForm, hreject, ok_bind, hday, ok_bind, DateForm.day, hyear, hweek]
  simp only [Option.some_or, Option.getD_some, bind_assoc]

theorem quarterForm_fields (values : String → Int) (year quarter : Int)
    (hyear : year = values "year") (hquarter : quarter = values "quarter") :
    quarterForm (DateForm.quarter.fields values) none year quarter =
      DateForm.quarter.day values >>= canonicalDateFromDays := by
  have hreject : rejectDateFields (DateForm.quarter.fields values)
      ["month", "day", "week", "dayOfWeek", "ordinalDay"] = .ok () := rfl
  have hday : optionalInteger (DateForm.quarter.fields values) "dayOfQuarter" =
      .ok (some (values "dayOfQuarter")) := rfl
  rw [quarterForm, hreject, ok_bind, hday, ok_bind, DateForm.day, hyear, hquarter]
  simp only [Option.some_or, Option.getD_some, bind_assoc]

theorem ordinalForm_fields (values : String → Int) (year ordinal : Int)
    (hyear : year = values "year") (hordinal : ordinal = values "ordinalDay") :
    ordinalForm (DateForm.ordinal.fields values) year ordinal =
      DateForm.ordinal.day values >>= canonicalDateFromDays := by
  have hreject : rejectDateFields (DateForm.ordinal.fields values)
      ["month", "day", "week", "dayOfWeek", "quarter", "dayOfQuarter"] = .ok () := rfl
  rw [ordinalForm, hreject, ok_bind, DateForm.day, hyear, hordinal]
  simp only [bind_assoc]

theorem dateFromMap_fields (form : DateForm) (values : String → Int) :
    dateFromMap (form.fields values) = (do
      let _ ← ofValue (DateValue.fromComponents (values "year") 1 1)
      let days ← form.day values
      canonicalDateFromDays days) := by
  have hempty : refuseWhen (form.fields values).isEmpty
      ⟨.semantic, "date()/datetime() map must not be empty"⟩ = .ok () := by cases form <;> rfl
  cases form with
  | week =>
    exact bind_congr fun _ => weekForm_fields values _ _ rfl rfl
  | quarter =>
    exact bind_congr fun _ => quarterForm_fields values _ _ rfl rfl
  | ordinal =>
    exact bind_congr fun _ => ordinalForm_fields values _ _ rfl rfl

theorem dateFromMapInput_fields (current : Text → QueryResult Text) (form : DateForm)
    (values : String → Int) :
    dateFromMapInput current (form.fields values) = dateFromMap (form.fields values) := by
  have hzone : timezoneOnly (form.fields values) = false := by cases form <;> rfl
  have hvalid : validateDateMap (form.fields values) = .ok () := by cases form <;> rfl
  rw [dateFromMapInput, if_neg (by rw [hzone]; exact Bool.false_ne_true), hvalid, ok_bind]

/-! ## 4. Building is the inverse of reading -/

theorem unsignedComponent_ok {value : Int} {name : String} {n : Nat} :
    unsignedComponent value name = .ok n ↔ value = n ∧ value < 2 ^ 32 := by
  unfold unsignedComponent
  split
  · next h =>
    constructor
    · intro hn
      have hn := Except.ok.inj hn
      omega
    · intro hn
      exact congrArg Except.ok (by omega)
  · next h =>
    constructor
    · intro hn
      cases hn
    · intro hn
      exact absurd ⟨by omega, hn.2⟩ h

variable {days year : Int} {values : String → Int} {form : DateForm}

theorem reads_week : Reads .week days values ↔ dayOfWeek days = values "dayOfWeek" ∧
      (days - firstMonday (weekYear days)) / 7 + 1 = values "week" ∧
        weekYear days = values "year" := by
  have hday : dateProperty days "dayOfWeek" = .ok (.integer (dayOfWeek days)) := rfl
  have hweek : dateProperty days "week" =
      .ok (.integer ((days - firstMonday (weekYear days)) / 7 + 1)) := rfl
  have hyear : dateProperty days "weekYear" = .ok (.integer (weekYear days)) := rfl
  simp only [Reads, DateForm.names, List.forall_mem_cons, List.not_mem_nil, false_imp_iff,
    implies_true, and_true, hday, hweek, hyear, Except.ok.injEq, Value.integer.injEq]

/-- **The week form builds the one day with the components.** -/
theorem isoWeekDate_iff {week weekday : Nat} :
    isoWeekDate year week weekday = .ok days ↔ dayOfWeek days = weekday ∧
      (days - firstMonday (weekYear days)) / 7 + 1 = week ∧ weekYear days = year := by
  have hmonday : daysFromCivil year 1 4 - (daysFromCivil year 1 4 + 3) % 7 = firstMonday year := rfl
  constructor
  · intro h
    unfold isoWeekDate at h
    split at h
    · cases h
    · next hin =>
      dsimp only at h
      rw [hmonday] at h
      split at h
      · cases h
      · next hyear =>
        obtain rfl := Except.ok.inj h
        rw [not_not] at hyear
        have hday : dayOfWeek (firstMonday year + ((week : Int) - 1) * 7 + ((weekday : Int) - 1)) =
            weekday := by
          unfold dayOfWeek
          omega
        have hweekYear : weekYear (firstMonday year + ((week : Int) - 1) * 7 +
            ((weekday : Int) - 1)) = year := by
          rw [weekYear, hday]
          exact hyear
        rw [hweekYear]
        exact ⟨hday, by omega, rfl⟩
  · intro h
    obtain ⟨hday, hweek, rfl⟩ := h
    obtain ⟨hlow, hhigh⟩ := between_weekYear days
    have hstep := yearStart_step (weekYear days)
    rw [firstMonday_eq] at hhigh
    have hlong : days < firstMonday (weekYear days) + 371 := by
      rw [firstMonday_eq]
      omega
    have hdays : firstMonday (weekYear days) + ((week : Int) - 1) * 7 + ((weekday : Int) - 1) =
        days := by
      unfold dayOfWeek at hday
      omega
    unfold isoWeekDate
    rw [if_neg (by unfold dayOfWeek at hday; omega)]
    dsimp only
    rw [hmonday, hdays, if_neg (by rw [not_not, ← hday]; rfl)]

theorem reads_ordinal : Reads .ordinal days values ↔
      days - yearStart (civilFromDays days).1 + 1 = values "ordinalDay" ∧
        (civilFromDays days).1 = values "year" := by
  have hday : dateProperty days "ordinalDay" =
      .ok (.integer (days - yearStart (civilFromDays days).1 + 1)) := rfl
  have hyear : dateProperty days "year" = .ok (.integer (civilFromDays days).1) := rfl
  simp only [Reads, DateForm.names, List.forall_mem_cons, List.not_mem_nil, false_imp_iff,
    implies_true, and_true, hday, hyear, Except.ok.injEq, Value.integer.injEq]

/-- **So does the ordinal form.** -/
theorem ordinalDate_iff {ordinal : Nat} : ordinalDate year ordinal = .ok days ↔
      days - yearStart (civilFromDays days).1 + 1 = ordinal ∧ (civilFromDays days).1 = year := by
  have hstart : daysFromCivil year 1 1 = yearStart year := rfl
  have hstop : daysFromCivil (year + 1) 1 1 = yearStart (year + 1) := rfl
  constructor
  · intro h
    unfold ordinalDate at h
    split at h
    · cases h
    · dsimp only at h
      rw [hstart, hstop] at h
      split at h
      · cases h
      · next hin =>
        obtain rfl := Except.ok.inj h
        have hyear : (civilFromDays (yearStart year + ((ordinal : Int) - 1))).1 = year :=
          year_eq_iff.mpr ⟨by omega, by omega⟩
        rw [hyear]
        exact ⟨by omega, rfl⟩
  · intro h
    obtain ⟨hday, rfl⟩ := h
    obtain ⟨hlow, hhigh⟩ := between_year days
    have hdays : yearStart (civilFromDays days).1 + ((ordinal : Int) - 1) = days := by omega
    unfold ordinalDate
    rw [if_neg (by omega)]
    dsimp only
    rw [hstart, hstop, hdays, if_neg (by omega)]

/-- The first day of a quarter; the quarters are numbered through as the months are. -/
def quarterStart (n : Int) : Int := monthStart (3 * n)

theorem quarterStart_eq {year : Int} {quarter : Nat} (h : 1 ≤ quarter ∧ quarter ≤ 4) :
    daysFromCivil year ((quarter - 1) * 3 + 1) 1 = quarterStart (4 * year + quarter - 1) := by
  have hyear : yearOf (3 * (4 * year + quarter - 1)) = year := by
    unfold yearOf
    omega
  have hmonth : monthOf (3 * (4 * year + quarter - 1)) = (quarter - 1) * 3 + 1 := by
    unfold monthOf
    omega
  rw [quarterStart, monthStart, hyear, hmonth]

theorem quarter_of_day (days : Int) :
    let quarter := ((civilFromDays days).2.1 - 1) / 3 + 1
    (1 ≤ quarter ∧ quarter ≤ 4) ∧
      LiesBetween quarterStart (4 * (civilFromDays days).1 + quarter - 1) days := by
  obtain ⟨n, hn⟩ := exists_month days
  have hmonth := monthOf_bounds n
  have hquarter : 4 * yearOf n + ((monthOf n - 1) / 3 + 1 : Nat) - 1 = n / 3 := by
    unfold yearOf monthOf
    omega
  rw [civilFromDays_month hn]
  dsimp only
  rw [hquarter]
  exact ⟨by omega, between_months (by omega) hn⟩

theorem reads_quarter : Reads .quarter days values ↔
      days - daysFromCivil (civilFromDays days).1
          ((((civilFromDays days).2.1 - 1) / 3 + 1 - 1) * 3 + 1) 1 + 1 = values "dayOfQuarter" ∧
        ((((civilFromDays days).2.1 - 1) / 3 + 1 : Nat) : Int) = values "quarter" ∧
          (civilFromDays days).1 = values "year" := by
  have hday : dateProperty days "dayOfQuarter" =
      .ok (.integer (days - daysFromCivil (civilFromDays days).1
        ((((civilFromDays days).2.1 - 1) / 3 + 1 - 1) * 3 + 1) 1 + 1)) := rfl
  have hquarter : dateProperty days "quarter" =
      .ok (.integer (((civilFromDays days).2.1 - 1) / 3 + 1 : Nat)) := rfl
  have hyear : dateProperty days "year" = .ok (.integer (civilFromDays days).1) := rfl
  simp only [Reads, DateForm.names, List.forall_mem_cons, List.not_mem_nil, false_imp_iff,
    implies_true, and_true, hday, hquarter, hyear, Except.ok.injEq, Value.integer.injEq]

/-- **So does the quarter form.** -/
theorem quarterDate_iff {quarter day : Nat} : quarterDate year quarter day = .ok days ↔
      days - daysFromCivil (civilFromDays days).1
          ((((civilFromDays days).2.1 - 1) / 3 + 1 - 1) * 3 + 1) 1 + 1 = day ∧
        ((civilFromDays days).2.1 - 1) / 3 + 1 = quarter ∧ (civilFromDays days).1 = year := by
  obtain ⟨hquarter, hbetween⟩ := quarter_of_day days
  have hstop : 1 ≤ quarter ∧ quarter ≤ 4 →
      daysFromCivil (if quarter = 4 then (year + 1, 1) else (year, (quarter - 1) * 3 + 1 + 3)).1
        (if quarter = 4 then (year + 1, 1) else (year, (quarter - 1) * 3 + 1 + 3)).2 1 =
      quarterStart (4 * year + quarter - 1 + 1) := by
    intro hin
    split
    · next hlast =>
      have hnext := @quarterStart_eq (year + 1) 1 (by omega)
      exact hnext.trans (congrArg quarterStart (by omega))
    · have hnext := @quarterStart_eq year (quarter + 1) (by omega)
      have hmonth : (quarter + 1 - 1) * 3 + 1 = (quarter - 1) * 3 + 1 + 3 := by omega
      rw [hmonth] at hnext
      exact hnext.trans (congrArg quarterStart (by omega))
  constructor
  · intro h
    unfold quarterDate at h
    split at h
    · cases h
    · next hin =>
      rw [not_or, not_not] at hin
      dsimp only at h
      rw [hstop hin.1, quarterStart_eq hin.1] at h
      split at h
      · cases h
      · next hlt =>
        obtain rfl := Except.ok.inj h
        have hhere : LiesBetween quarterStart (4 * year + quarter - 1)
            (quarterStart (4 * year + quarter - 1) + ((day : Int) - 1)) := ⟨by omega, by omega⟩
        have hsame := hbetween.unique (strictMono_months (by omega)) hhere
        rw [quarterStart_eq hquarter, hsame]
        exact ⟨by omega, by omega, by omega⟩
  · intro h
    obtain ⟨hday, rfl, rfl⟩ := h
    rw [quarterStart_eq hquarter] at hday
    obtain ⟨hlow, hhigh⟩ := hbetween
    unfold quarterDate
    rw [if_neg (by omega)]
    dsimp only
    rw [hstop hquarter, quarterStart_eq hquarter, if_neg (by omega)]
    exact congrArg Except.ok (by omega)

/-- **A form builds the one day with the components.** -/
theorem DateForm.day_iff : form.day values = .ok days ↔ Reads form days values := by
  cases form with
  | week =>
    have hlow := (between_weekYear days).1
    have hhigh := (between_weekYear days).2
    have hstep := yearStart_step (weekYear days)
    have hlong : days < firstMonday (weekYear days) + 371 := by
      rw [firstMonday_eq] at hhigh ⊢
      omega
    simp only [DateForm.day, bind_eq_ok, unsignedComponent_ok, isoWeekDate_iff, reads_week]
    constructor
    · intro h
      obtain ⟨week, ⟨hweek, _⟩, weekday, ⟨hday, _⟩, hall⟩ := h
      rwa [hweek, hday]
    · intro h
      obtain ⟨hday, hweek, hyear⟩ := h
      have hweekday : 1 ≤ dayOfWeek days ∧ dayOfWeek days ≤ 7 := by
        unfold dayOfWeek
        omega
      exact ⟨(values "week").toNat, ⟨by omega, by omega⟩, (values "dayOfWeek").toNat,
        ⟨by omega, by omega⟩, by omega, by omega, hyear⟩
  | quarter =>
    obtain ⟨hquarter, hlow, hhigh⟩ := quarter_of_day days
    simp only [DateForm.day, bind_eq_ok, unsignedComponent_ok, quarterDate_iff, reads_quarter]
    constructor
    · intro h
      obtain ⟨quarter, ⟨hvalue, _⟩, day, ⟨hday, _⟩, hread, hnumber, hyear⟩ := h
      rw [hvalue, hday]
      exact ⟨hread, congrArg Nat.cast hnumber, hyear⟩
    · intro h
      obtain ⟨hday, hnumber, hyear⟩ := h
      rw [quarterStart_eq hquarter] at hday ⊢
      have hlong : quarterStart (4 * (civilFromDays days).1 +
          (((civilFromDays days).2.1 - 1) / 3 + 1 : Nat) - 1 + 1) ≤
            quarterStart (4 * (civilFromDays days).1 +
              (((civilFromDays days).2.1 - 1) / 3 + 1 : Nat) - 1) + 93 := by
        generalize 4 * (civilFromDays days).1 +
          (((civilFromDays days).2.1 - 1) / 3 + 1 : Nat) - 1 = n
        have hfirst := monthLength_bounds (3 * n)
        have hsecond := monthLength_bounds (3 * n + 1)
        have hthird := monthLength_bounds (3 * n + 1 + 1)
        have hnext : 3 * (n + 1) = 3 * n + 1 + 1 + 1 := by omega
        rw [quarterStart, quarterStart, hnext, monthStart_succ, monthStart_succ, monthStart_succ]
        omega
      exact ⟨(values "quarter").toNat, ⟨by omega, by omega⟩, (values "dayOfQuarter").toNat,
        ⟨by omega, by omega⟩, by omega, by omega, hyear⟩
  | ordinal =>
    obtain ⟨hlow, hhigh⟩ := between_year days
    have hstep := yearStart_step (civilFromDays days).1
    simp only [DateForm.day, bind_eq_ok, unsignedComponent_ok, ordinalDate_iff, reads_ordinal]
    constructor
    · intro h
      obtain ⟨ordinal, ⟨hvalue, _⟩, hall⟩ := h
      rwa [hvalue]
    · intro h
      obtain ⟨hday, hyear⟩ := h
      exact ⟨(values "ordinalDay").toNat, ⟨by omega, by omega⟩, by omega, hyear⟩

theorem reads_unique {days' : Int} (h : Reads form days values) (h' : Reads form days' values) :
    days = days' := by
  rw [← DateForm.day_iff] at h h'
  rw [h] at h'
  exact Except.ok.inj h'

/-! ## 5. The range -/

theorem firstMonday_first : firstMonday (-999999999) = -365243219162 := by
  rw [firstMonday_eq, yearStart_first]
  norm_num

theorem firstMonday_after : firstMonday 1000000000 = 365241780474 := by
  rw [firstMonday_eq, yearStart_after]
  norm_num

/-- Every week-year is a year that a date can have. -/
theorem yearInRange_weekYear (h : DayInRange days) : YearInRange (weekYear days) := by
  obtain ⟨hlow, hhigh⟩ := dayInRange_iff.mp h
  have hweek := between_weekYear days
  have hfirst := between_self strictMono_firstMonday (-999999999)
  have hlast : LiesBetween firstMonday (weekYear days) days := hweek
  refine ⟨hfirst.index_le strictMono_firstMonday hweek (by rw [firstMonday_first]; exact hlow), ?_⟩
  by_contra hlt
  have hle := strictMono_firstMonday.monotone (by omega : 1000000000 ≤ weekYear days)
  rw [firstMonday_after] at hle
  have hstart := hlast.1
  omega

theorem yearInRange_reads (h : Reads form days values) (hdays : DayInRange days) :
    YearInRange (values "year") := by
  cases form with
  | week => exact (reads_week.mp h).2.2 ▸ yearInRange_weekYear hdays
  | quarter => exact (reads_quarter.mp h).2.2 ▸ hdays
  | ordinal => exact (reads_ordinal.mp h).2 ▸ hdays

theorem reads_bound (h : Reads form days values) (hyear : YearInRange (values "year")) :
    days.natAbs < 10 ^ 20 - 10 ^ 9 := by
  have hcivil : (civilFromDays days).1 = values "year" → days.natAbs < 10 ^ 20 - 10 ^ 9 := by
    intro heq
    have hrange : DayInRange days := by
      rw [DayInRange, heq]
      exact hyear
    have hbounds := dayInRange_iff.mp hrange
    omega
  cases form with
  | week =>
    have hyear' : YearInRange (weekYear days) := (reads_week.mp h).2.2 ▸ hyear
    obtain ⟨hlow, hhigh⟩ := between_weekYear days
    have hfirst := strictMono_firstMonday.monotone hyear'.1
    have hnext : weekYear days + 1 ≤ 1000000000 := by
      have hle := hyear'.2
      omega
    have hlast := strictMono_firstMonday.monotone hnext
    rw [firstMonday_first] at hfirst
    rw [firstMonday_after] at hlast
    omega
  | quarter => exact hcivil (reads_quarter.mp h).2.2
  | ordinal => exact hcivil (reads_ordinal.mp h).2

theorem map_text_ok {x : ValueResult DateValue} {text : Text} :
    (ofValue x).map DateValue.text = .ok text ↔ ∃ date, x = .ok date ∧ date.text = text := by
  cases x with
  | error e =>
    constructor
    · intro h
      cases h
    · intro h
      obtain ⟨_, h, _⟩ := h
      cases h
  | ok date =>
    constructor
    · intro h
      exact ⟨date, rfl, Except.ok.inj h⟩
    · intro h
      obtain ⟨_, hdate, htext⟩ := h
      obtain rfl := Except.ok.inj hdate
      exact congrArg Except.ok htext

/-- **A map of components is accepted just where a day in range has them.** -/
theorem dateOfMap_iff (current : Text → QueryResult Text) (hyear : IsI64 (values "year"))
    {date : DateValue} : dateOfMap current (form.fields values) = .ok date ↔
      ∃ days, Reads form days values ∧ DayInRange days ∧ ¬ ShortNegativeDay days ∧
        date = dateOn days := by
  have hcivil : CivilDate (values "year") 1 1 := civilDate_first _ (by omega)
  have hbound : (values "year").natAbs < 10 ^ 20 := by
    unfold IsI64 at hyear
    omega
  rw [dateOfMap, dateFromMapInput_fields, dateFromMap_fields]
  constructor
  · intro h
    obtain ⟨text, htext, hparse⟩ := bind_eq_ok.mp h
    obtain ⟨first, hfirst, htext⟩ := bind_eq_ok.mp htext
    obtain ⟨days, hdays, htext⟩ := bind_eq_ok.mp htext
    obtain ⟨built, hbuilt, rfl⟩ := map_text_ok.mp htext
    have hrange := ((DateValue.fromComponents_iff hcivil (by omega) hbound).mp
      (ofValue_ok.mp hfirst)).2
    have hreads := DateForm.day_iff.mp hdays
    obtain ⟨rfl, hin, hlong⟩ := (DateValue.fromDays_iff (reads_bound hreads hrange)).mp hbuilt
    rw [ofValue_ok, parse_dateOn hin] at hparse
    exact ⟨days, hreads, hin, hlong, (Except.ok.inj hparse).symm⟩
  · intro h
    obtain ⟨days, hreads, hin, hlong, rfl⟩ := h
    have hrange := yearInRange_reads hreads hin
    have hfirst := (DateValue.fromComponents_iff hcivil (by omega) hbound).mpr ⟨rfl, hrange⟩
    have hbuilt := (DateValue.fromDays_iff (reads_bound hreads hrange)).mpr ⟨rfl, hin, hlong⟩
    refine bind_eq_ok.mpr ⟨(dateOn days).text, ?_, ofValue_ok.mpr (parse_dateOn hin)⟩
    refine bind_eq_ok.mpr ⟨_, ofValue_ok.mpr hfirst, ?_⟩
    exact bind_eq_ok.mpr ⟨days, DateForm.day_iff.mpr hreads,
      map_text_ok.mpr ⟨dateOn days, hbuilt, rfl⟩⟩

/-- **The components of a date give the date back, and only the components of a date are accepted,
    just where its year is not one of -999 to -1.** -/
theorem dateOfMap_reads (current : Text → QueryResult Text) (form : DateForm)
    (values : String → Int) (hyear : IsI64 (values "year")) :
    (∀ text date, DateValue.parse text = .ok date → Reads form date.days values →
      (dateOfMap current (form.fields values) = .ok date ↔ ¬ ShortNegativeDay date.days)) ∧
    (((∃ date, dateOfMap current (form.fields values) = .ok date) ↔
        ∃ text date, DateValue.parse text = .ok date ∧ Reads form date.days values) ↔
      ¬ ∃ text date, DateValue.parse text = .ok date ∧ Reads form date.days values ∧
        ShortNegativeDay date.days) := by
  refine ⟨fun text date hparse hreads => ?_, ?_⟩
  · obtain ⟨hdate, hin⟩ := date_of_parse hparse
    rw [dateOfMap_iff current hyear]
    constructor
    · intro h
      obtain ⟨days, hdays, _, hlong, _⟩ := h
      rwa [reads_unique hreads hdays]
    · intro hlong
      exact ⟨date.days, hreads, hin, hlong, hdate⟩
  · constructor
    · intro hiff hshort
      obtain ⟨text, date, hparse, hreads, hshort⟩ := hshort
      obtain ⟨built, hbuilt⟩ := hiff.mpr ⟨text, date, hparse, hreads⟩
      obtain ⟨days, hdays, _, hlong, _⟩ := (dateOfMap_iff current hyear).mp hbuilt
      exact hlong (reads_unique hreads hdays ▸ hshort)
    · intro hnone
      constructor
      · intro h
        obtain ⟨built, hbuilt⟩ := h
        obtain ⟨days, hdays, hin, _, _⟩ := (dateOfMap_iff current hyear).mp hbuilt
        exact ⟨(dateOn days).text, dateOn days, parse_dateOn hin, hdays⟩
      · intro h
        obtain ⟨text, date, hparse, hreads⟩ := h
        obtain ⟨hdate, hin⟩ := date_of_parse hparse
        have hlong : ¬ ShortNegativeDay date.days :=
          fun hshort => hnone ⟨text, date, hparse, hreads, hshort⟩
        exact ⟨date, (dateOfMap_iff current hyear).mpr ⟨date.days, hreads, hin, hlong, hdate⟩⟩

/-- The first of January 2021 is the Friday of week 53 of 2020. -/
theorem dateOfMap_reads_long_year :
    dateOfMap (fun _ => .ok []) (DateForm.week.fields fun name =>
        if name = "year" then 2020 else if name = "week" then 53 else 5) =
      .ok ⟨"2021-01-01".toList, 18628⟩ :=
  ((dateOfMap_reads (fun _ => .ok []) .week _ (by unfold IsI64; decide)).1 "2021-01-01".toList
    ⟨"2021-01-01".toList, 18628⟩ (by decide) (by rw [reads_week]; decide)).mpr (by decide)

/-- The first day of the year -1 is a date, and its components are refused. -/
theorem dateOfMap_short_year :
    DateValue.parse "-0001-01-01".toList = .ok ⟨"-0001-01-01".toList, -719893⟩ ∧
      Reads .ordinal (-719893) (fun name => if name = "year" then -1 else 1) ∧
      dateOfMap (fun _ => .ok []) (DateForm.ordinal.fields fun name =>
          if name = "year" then -1 else 1) =
        .error ⟨.type, "Date year must contain at least four digits"⟩ := by
  refine ⟨by decide, by rw [reads_ordinal]; decide, by decide⟩

end Lithograph.Query.Functions
