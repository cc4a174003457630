/-
  File:      Lithograph/Cypher/Value.lean
  Subject:   Query values, how a property stores them and how they are read back (`cypher/value.rs`,
             `cypher/uuid.rs`, `query/mutation/execute/value.rs`, `query/graph.rs`,
             `query/graph/controlled.rs`).

  A coordinate of a vector is its bits; the wrapping of a longitude is a parameter. A map is its
  entries in the order of the keys. Graph elements, which no property stores, carry nothing here.
-/
import Lithograph.Cypher.TemporalText
import Lithograph.Query.Error
import Lithograph.Storage.PropertyValue

namespace Lithograph.Cypher

open Library Storage Query

/-! ## 1. Points, vectors and UUIDs -/

/-- The bits without the sign, which are ordered as the absolute values are. -/
def magnitude (x : F64) : Nat := (x.bits &&& 0x7fffffffffffffff).toNat

def isFinite (x : F64) : Bool := magnitude x < 0x7ff0000000000000

theorem isNan_of_finite {x : F64} (h : isFinite x = true) : x.isNan = false := by
  unfold isFinite magnitude at h
  unfold F64.isNan
  rw [decide_eq_true_eq] at h
  rw [decide_eq_false_iff_not, gt_iff_lt, UInt64.lt_iff_toNat_lt]
  have hbound : (0x7ff0000000000000 : UInt64).toNat = 0x7ff0000000000000 := rfl
  omega

/-- `(-90.0..=90.0).contains(..)`. -/
def withinLatitude (x : F64) : Bool := magnitude x ≤ 0x4056800000000000

/-- `(-180.0..=180.0).contains(..)`. -/
def withinLongitude (x : F64) : Bool := magnitude x ≤ 0x4066800000000000

structure PointValue where
  crs : Text
  srid : Nat
  coordinates : List F64
  deriving DecidableEq, Repr

/-- The canonical name, the number, the dimension of a coordinate reference system, and whether it
    is geographic. -/
def referenceSystem (crs : Text) : Option (Text × Nat × Nat × Bool) :=
  let name := crs.map Char.toLower
  if name = "wgs-84".toList then some (name, 4326, 2, true)
  else if name = "wgs-84-3d".toList then some (name, 4979, 3, true)
  else if name = "cartesian".toList then some (name, 7203, 2, false)
  else if name = "cartesian-3d".toList then some (name, 9157, 3, false)
  else none

/-- The longitude of a geographic point is wrapped into its range. -/
def wrapFirst (wrapLongitude : F64 → F64) (geographic : Bool) : List F64 → List F64
  | [] => []
  | longitude :: rest =>
    if geographic && !withinLongitude longitude then wrapLongitude longitude :: rest
    else longitude :: rest

def PointValue.new (wrapLongitude : F64 → F64) (crs : Text) (coordinates : List F64) :
    ValueResult PointValue := do
  let system ← required (referenceSystem crs) "Point crs is unsupported"
  rejectWhen (coordinates.length != system.2.2.1)
    ("Point " ++ String.ofList system.1 ++ " requires exactly " ++ toString system.2.2.1 ++
      " coordinates")
  rejectWhen (coordinates.any fun x => !isFinite x) "Point coordinates must be finite"
  rejectWhen (system.2.2.2 && !(coordinates[1]?.any withinLatitude))
    "WGS-84 latitude is outside its valid range"
  pure ⟨system.1, system.2.1, wrapFirst wrapLongitude system.2.2.2 coordinates⟩

/-- `VectorValues`: the coordinates, as bits of the width of their type. -/
inductive VectorValues where
  | i8 (values : List (BitVec 8))
  | i16 (values : List (BitVec 16))
  | i32 (values : List (BitVec 32))
  | i64 (values : List (BitVec 64))
  | f32 (values : List (BitVec 32))
  | f64 (values : List (BitVec 64))
  deriving DecidableEq

def VectorValues.len : VectorValues → Nat
  | .i8 values => values.length
  | .i16 values => values.length
  | .i32 values => values.length
  | .i64 values => values.length
  | .f32 values => values.length
  | .f64 values => values.length

/-- The type of the coordinates. -/
def VectorValues.coordinateType : VectorValues → VectorCoordinateType
  | .i8 _ => .i8
  | .i16 _ => .i16
  | .i32 _ => .i32
  | .i64 _ => .i64
  | .f32 _ => .f32
  | .f64 _ => .f64

/-- `vector_coordinates_finite`. -/
def VectorValues.finite : VectorValues → Bool
  | .f32 values => values.all fun v => v.toNat % 2 ^ 31 < 0x7f800000
  | .f64 values => values.all fun v => v.toNat % 2 ^ 63 < 0x7ff0000000000000
  | _ => true

/-- `cypher::VectorValue`. -/
structure CypherVector where
  coordinateType : VectorCoordinateType
  values : VectorValues
  deriving DecidableEq

def CypherVector.new (coordinateType : VectorCoordinateType) (values : VectorValues) :
    ValueResult CypherVector := do
  rejectWhen (decide (values.coordinateType ≠ coordinateType))
    "Vector values do not match their coordinateType"
  rejectWhen (values.len < 1 || 4096 < values.len) "Vector dimension must be between 1 and 4096"
  rejectWhen (!values.finite) "Vector coordinates cannot contain NaN or Infinity"
  pure ⟨coordinateType, values⟩

/-- The type is that of the coordinates, which are finite. -/
theorem CypherVector.new_ok {vector : CypherVector}
    (h : CypherVector.new vector.coordinateType vector.values = .ok vector) :
    vector.values.coordinateType = vector.coordinateType ∧ vector.values.len ≤ 4096 ∧
      vector.values.finite = true := by
  unfold CypherVector.new at h
  obtain ⟨_, htype, h⟩ := bind_eq_ok.mp h
  obtain ⟨_, hlen, h⟩ := bind_eq_ok.mp h
  obtain ⟨_, hfinite, _⟩ := bind_eq_ok.mp h
  simp only [rejectWhen_ok, Bool.or_eq_false_iff, decide_eq_false_iff_not, Nat.not_lt,
    Bool.not_eq_false', ne_eq, not_not] at htype hlen hfinite
  exact ⟨htype, hlen.2, hfinite⟩

structure UuidValue where
  bytes : Bytes
  deriving DecidableEq

/-- `{:02x}` of a byte. -/
def hexDigit (n : Nat) : Char := if n < 10 then Char.ofNat (48 + n) else Char.ofNat (87 + n)

def hexByte (byte : UInt8) : Text := [hexDigit (byte.toNat / 16), hexDigit (byte.toNat % 16)]

def uuidText (bytes : Bytes) : Text :=
  (bytes.take 4).flatMap hexByte ++ '-' :: ((bytes.drop 4).take 2).flatMap hexByte ++
    '-' :: ((bytes.drop 6).take 2).flatMap hexByte ++
    '-' :: ((bytes.drop 8).take 2).flatMap hexByte ++ '-' :: (bytes.drop 10).flatMap hexByte

def hex (c : Char) : ValueResult Nat :=
  if 48 ≤ c.toNat ∧ c.toNat ≤ 57 then .ok (c.toNat - 48)
  else if 97 ≤ c.toNat ∧ c.toNat ≤ 102 then .ok (c.toNat - 87)
  else if 65 ≤ c.toNat ∧ c.toNat ≤ 70 then .ok (c.toNat - 55)
  else .error ⟨"UUID contains a non-hexadecimal digit"⟩

/-- The bytes of pairs of digits. -/
def hexPairs : Text → ValueResult Bytes
  | high :: low :: rest => do
    let high ← hex high
    let low ← hex low
    let bytes ← hexPairs rest
    pure (UInt8.ofNat (high * 16 + low) :: bytes)
  | _ => .ok []

def matchesHyphens (text : Text) : Bool :=
  [8, 13, 18, 23].all fun index => text[index]? == some '-'

def UuidValue.parse (text : Text) : ValueResult UuidValue := do
  rejectWhen ((Text.utf8 text).length != 36 || !matchesHyphens text)
    "UUID must use canonical 8-4-4-4-12 text form"
  let compact := text.filter (· != '-')
  rejectWhen (compact.length != 32) "UUID must contain 32 hexadecimal digits"
  let bytes ← hexPairs compact
  pure ⟨bytes⟩

/-! ## 2. Values -/

inductive Value where
  | null
  | boolean (value : Bool)
  | integer (value : Int)
  | float (value : F64)
  | string (value : Text)
  | list (values : List Value)
  | map (entries : List (Text × Value))
  | node
  | relationship
  | path
  | date (value : DateValue)
  | localTime (value : LocalTimeValue)
  | time (value : TimeValue)
  | localDateTime (value : LocalDateTimeValue)
  | zonedDateTime (value : ZonedDateTimeValue)
  | duration (value : DurationValue)
  | point (value : PointValue)
  | vector (value : CypherVector)
  | uuid (value : UuidValue)

/-- `From<ValueError> for QueryError`. -/
def ofValue {α : Type} : ValueResult α → QueryResult α
  | .ok a => .ok a
  | .error e => .error ⟨.type, e.message⟩

@[simp] theorem ofValue_ok {α : Type} {x : ValueResult α} {a : α} :
    ofValue x = .ok a ↔ x = .ok a := by
  cases x <;> simp [ofValue]

/-! ## 3. Storing a value -/

def packCoordinates {w : Nat} (width : Nat) (values : List (BitVec w)) : Bytes :=
  values.flatMap fun value => leBytes width value.toNat

/-- The bytes of the coordinates. -/
def VectorValues.packed : VectorValues → Bytes
  | .i8 values => packCoordinates 1 values
  | .i16 values => packCoordinates 2 values
  | .i32 values => packCoordinates 4 values
  | .i64 values => packCoordinates 8 values
  | .f32 values => packCoordinates 4 values
  | .f64 values => packCoordinates 8 values

/-- `storage_vector`: the coordinate type follows the values. -/
def storageVector (value : CypherVector) : VectorValue :=
  ⟨value.values.coordinateType, value.values.len, value.values.packed⟩

def listElementFamily : PropertyValue → Option Nat
  | .boolean _ => some 1
  | .integer _ => some 2
  | .float _ => some 3
  | .string _ => some 4
  | .date _ => some 5
  | .localTime _ => some 6
  | .time _ _ => some 7
  | .localDateTime _ _ => some 8
  | .zonedDateTime _ => some 9
  | .duration _ _ _ _ => some 10
  | .point _ => some 11
  | .uuid _ => some 12
  | .list _ => none
  | .vector _ => none

/-- `is_property_value_checked`. -/
def isPropertyValue : PropertyValue → Bool
  | .list [] => true
  | .list (first :: rest) =>
    match listElementFamily first with
    | none => false
    | some family => (first :: rest).all fun value => listElementFamily value == some family
  | _ => true

/-- The value, where a property may be it. -/
def checkedProperty (value : PropertyValue) : QueryResult (Option PropertyValue) := do
  refuseWhen (!isPropertyValue value)
    ⟨.type, "value is not a valid Cypher persistent property value"⟩
  pure (some value)

/-- `ok_or_else` on an element of a property list. -/
def presentElement : Option PropertyValue → QueryResult PropertyValue
  | some value => .ok value
  | none => .error ⟨.type, "property List cannot contain null"⟩

def unstorable : QueryError :=
  ⟨.type, "graph properties cannot store Map, Node, Relationship, or Path values"⟩

mutual

def propertyFromValue : Value → QueryResult (Option PropertyValue)
  | .null => .ok none
  | .boolean value => checkedProperty (.boolean value)
  | .integer value => checkedProperty (.integer value)
  | .float value => checkedProperty (.float value)
  | .string value => checkedProperty (.string value)
  | .list values => do
    let values ← propertyList values
    checkedProperty (.list values)
  | .date value => checkedProperty (.date value.days)
  | .localTime value => checkedProperty (.localTime value.nanoseconds)
  | .time value => checkedProperty (.time value.localNanoseconds value.offsetSeconds)
  | .localDateTime value => checkedProperty (.localDateTime value.days value.nanoseconds)
  | .zonedDateTime value => do
    let parts ← ofValue value.storageComponents
    checkedProperty (.zonedDateTime ⟨parts.1, parts.2.1, parts.2.2⟩)
  | .duration value =>
    checkedProperty (.duration value.months value.days value.seconds value.nanoseconds)
  | .point value => checkedProperty (.point ⟨value.srid, value.coordinates⟩)
  | .vector value => checkedProperty (.vector (storageVector value))
  | .uuid value => checkedProperty (.uuid value.bytes)
  | .map _ | .node | .relationship | .path => .error unstorable

def propertyList : List Value → QueryResult (List PropertyValue)
  | [] => .ok []
  | value :: rest => do
    let stored ← propertyFromValue value
    let first ← presentElement stored
    let others ← propertyList rest
    pure (first :: others)

end

/-! ## 4. Reading a value back -/

/-- `parse::<i32>` of two characters: digits, or a sign and a digit. -/
def parseTwoSigned (first second : Char) : Option Int :=
  if !isDigit second then none
  else if isDigit first then some (number [first, second])
  else if first = '+' then some (digitValue second)
  else if first = '-' then some (-(digitValue second : Int))
  else none

/-- `±HH:MM`, six bytes long. -/
def sixByteOffset : Text → Option Int
  | [sign, h1, h2, ':', m1, m2] =>
    if sign = '+' ∨ sign = '-' then do
      let hour ← parseTwoSigned h1 h2
      let minute ← parseTwoSigned m1 m2
      pure ((if sign = '-' then -1 else 1) * (hour * 3600 + minute * 60))
    else none
  | _ => none

def fixedZoneOffset (zone : Text) : Option Int :=
  if zone = ['Z'] ∨ zone = "UTC".toList ∨ zone = "GMT".toList ∨ zone = "GMT0".toList then some 0
  else sixByteOffset zone

def zoneOffsetAt (zones : ZoneDatabase) (zone : Text) (seconds : Int) (nanoseconds : Nat) :
    QueryResult Int :=
  match fixedZoneOffset zone with
  | some offset => .ok offset
  | none =>
    if zones.known zone then
      match zones.offsetAt zone seconds nanoseconds with
      | some offset => .ok offset
      | none => .error (.internal "persisted ZonedDateTime is outside the IANA timezone range")
    else .error (.internal ("persisted ZonedDateTime has unknown IANA zone " ++
      (String.ofList zone).quote))

def zonedDatetimeValue (zones : ZoneDatabase) (value : Storage.ZonedDateTimeValue) :
    QueryResult Value := do
  let offset ← zoneOffsetAt zones value.zoneId value.epochSeconds value.nanoseconds
  let localSeconds := value.epochSeconds + offset
  refuseWhen (localSeconds < -(2 ^ 63) || 2 ^ 63 - 1 < localSeconds)
    (.internal "persisted ZonedDateTime overflows local representation")
  let day := localSeconds / 86400
  let nanos := (localSeconds % 86400).toNat * 1000000000 + value.nanoseconds
  let text := formatDateFromDays day ++ 'T' :: (formatLocalTime nanos ++ formatOffset offset)
  let parsed ← ofValue (ZonedDateTimeValue.parse zones text value.zoneId)
  pure (.zonedDateTime parsed)

def pointValue (wrapLongitude : F64 → F64) (value : Storage.PointValue) : QueryResult Value := do
  let crs ←
    if value.crs = 4326 then pure "wgs-84".toList
    else if value.crs = 4979 then pure "wgs-84-3d".toList
    else if value.crs = 7203 then pure "cartesian".toList
    else if value.crs = 9157 then pure "cartesian-3d".toList
    else .error (.internal ("unsupported persisted point CRS " ++ toString value.crs))
  let point ← ofValue (PointValue.new wrapLongitude crs value.coordinates)
  pure (.point point)

/-- `as_chunks`: the whole chunks of a width. -/
def wholeChunks (width : Nat) : Nat → Bytes → List Bytes
  | 0, _ => []
  | count + 1, bytes => bytes.take width :: wholeChunks width count (bytes.drop width)

/-- The coordinates in packed bytes. -/
def unpackCoordinates (w width : Nat) (packed : Bytes) : List (BitVec w) :=
  (wholeChunks width (packed.length / width) packed).map fun chunk => BitVec.ofNat w (leNat chunk)

/-- The coordinates of a stored vector. -/
def unpackedValues (value : VectorValue) : VectorValues :=
  match value.coordinateType with
  | .i8 => .i8 (unpackCoordinates 8 1 value.packed)
  | .i16 => .i16 (unpackCoordinates 16 2 value.packed)
  | .i32 => .i32 (unpackCoordinates 32 4 value.packed)
  | .i64 => .i64 (unpackCoordinates 64 8 value.packed)
  | .f32 => .f32 (unpackCoordinates 32 4 value.packed)
  | .f64 => .f64 (unpackCoordinates 64 8 value.packed)

/-- `vector_value`, `borrowed_vector`. -/
def vectorValue (value : VectorValue) : QueryResult Value := do
  let vector ← ofValue (CypherVector.new value.coordinateType (unpackedValues value))
  pure (.vector vector)

section Reading

variable (zones : ZoneDatabase) (wrapLongitude : F64 → F64)

/-- A stored value that is no list, read back; `propertyValue` reads lists itself. -/
def scalarValue : PropertyValue → QueryResult Value
  | .boolean value => .ok (.boolean value)
  | .integer value => .ok (.integer value)
  | .float value => .ok (.float value)
  | .string value => .ok (.string value)
  | .list _ => .ok (.list [])
  | .date days => (ofValue (DateValue.parse (formatDateFromDays days))).map .date
  | .localTime nanoseconds =>
    (ofValue (LocalTimeValue.parse (formatLocalTime nanoseconds))).map .localTime
  | .time nanoseconds offset =>
    (ofValue (TimeValue.parse (formatLocalTime nanoseconds ++ formatOffset offset))).map .time
  | .localDateTime day nanoseconds =>
    (ofValue (LocalDateTimeValue.parse
      (formatDateFromDays day ++ 'T' :: formatLocalTime nanoseconds))).map .localDateTime
  | .zonedDateTime value => zonedDatetimeValue zones value
  | .duration months days seconds nanoseconds =>
    .ok (.duration ⟨months, days, seconds, nanoseconds⟩)
  | .point value => pointValue wrapLongitude value
  | .vector value => vectorValue value
  | .uuid bytes => (ofValue (UuidValue.parse (uuidText bytes))).map .uuid

mutual

def propertyValue : PropertyValue → QueryResult Value
  | .list values => do
    let values ← propertyValues values
    pure (.list values)
  | value => scalarValue zones wrapLongitude value

def propertyValues : List PropertyValue → QueryResult (List Value)
  | [] => .ok []
  | value :: rest => do
    let first ← propertyValue value
    let others ← propertyValues rest
    pure (first :: others)

end

mutual

/-- `borrowed_property`: strings and lists are copied, vectors unpacked, every other value is
    cloned for `property_value`. -/
def borrowedProperty : PropertyValue → QueryResult Value
  | .string value => .ok (.string value)
  | .list values => do
    let values ← borrowedProperties values
    pure (.list values)
  | .vector value => vectorValue value
  | value => propertyValue zones wrapLongitude value

def borrowedProperties : List PropertyValue → QueryResult (List Value)
  | [] => .ok []
  | value :: rest => do
    let first ← borrowedProperty value
    let others ← borrowedProperties rest
    pure (first :: others)

end

end Reading

end Lithograph.Cypher
