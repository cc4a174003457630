/-
  File:      Lithograph/Query/Spill/DistinctKey.lean
  Subject:   The keys that rows are grouped and told apart by (`query/spill/codec.rs`).

  A key is the text of a JSON array: one tagged key a value, numbers as strings. What has no key of
  its own is encoded as a result is, with its numbers replaced. Checks that only refuse are left
  out.
-/
import Lithograph.Cypher.DurationText
import Lithograph.Cypher.JsonText
import Lithograph.Query.Expression.NumberOrder

namespace Lithograph.Query.Expression

open Library Storage Cypher

/-! ## 1. Numbers -/

/-- `{:0width$x}`. -/
def hexFixed : Nat → Nat → Text
  | 0, _ => []
  | width + 1, n => hexFixed width (n / 16) ++ [hexDigit (n % 16)]

/-- The float is of the range of `i64`. -/
def inIntegerRange (x : F64) : Bool :=
  -0x43e0000000000000 ≤ floatOrder x && floatOrder x < 0x43e0000000000000

def floatDistinctKey (x : F64) : Text :=
  if x.isNan then "nan".toList
  else if isFinite x && !floatHasFraction x && inIntegerRange x then
    'i' :: ':' :: integerText (floatTrunc x)
  else 'f' :: ':' :: hexFixed 16 x.bits.toNat

/-- The bits of `as f64`, without the sign: to the nearest float, and to the even one of two. -/
def roundedMagnitude (m : Nat) : Nat :=
  if m = 0 then 0
  else if m.log2 ≤ 52 then (m.log2 + 1022) * 2 ^ 52 + m * 2 ^ (52 - m.log2)
  else
    let kept := m / 2 ^ (m.log2 - 52)
    let lost := m % 2 ^ (m.log2 - 52)
    let up := 2 ^ (m.log2 - 52) < lost * 2 || (2 ^ (m.log2 - 52) == lost * 2 && kept % 2 == 1)
    (m.log2 + 1022) * 2 ^ 52 + kept + if up then 1 else 0

/-- `as f64`. -/
def integerAsFloat (n : Int) : F64 :=
  ⟨UInt64.ofNat ((if n < 0 then 2 ^ 63 else 0) + roundedMagnitude n.natAbs)⟩

/-! ## 2. JSON -/

mutual

def canonicalizeJsonNumbers : Json → Json
  | .int n => .object [("$number".toList, .string (floatDistinctKey (integerAsFloat n)))]
  | .float x => .object [("$number".toList, .string (floatDistinctKey x))]
  | .array items => .array (canonicalizeItems items)
  | .object fields => .object (canonicalizeFields fields)
  | json => json

def canonicalizeItems : List Json → List Json
  | [] => []
  | item :: rest => canonicalizeJsonNumbers item :: canonicalizeItems rest

def canonicalizeFields : List (Text × Json) → List (Text × Json)
  | [] => []
  | (key, item) :: rest => (key, canonicalizeJsonNumbers item) :: canonicalizeFields rest

end

/-- `encode_json_checked`, of an integer. -/
def encodeInteger (n : Int) : Json :=
  if -jsSafeInteger ≤ n ∧ n ≤ jsSafeInteger then .int n else taggedText "Integer" (integerText n)

/-- `encode_json_checked`, of a float. -/
def encodeFloat (x : F64) : Json := if isFinite x then .float x else encodeNonfinite x

/-- `VectorCoordinateType::as_str`. -/
def coordinateTypeText : VectorCoordinateType → Text
  | .i8 => "I8".toList
  | .i16 => "I16".toList
  | .i32 => "I32".toList
  | .i64 => "I64".toList
  | .f32 => "F32".toList
  | .f64 => "F64".toList

/-- The coordinates of a vector. -/
def encodeCoordinates : VectorValues → List Json
  | .i8 values => values.map fun v => encodeInteger v.toInt
  | .i16 values => values.map fun v => encodeInteger v.toInt
  | .i32 values => values.map fun v => encodeInteger v.toInt
  | .i64 values => values.map fun v => encodeInteger v.toInt
  | .f32 values => values.map fun v => encodeFloat (widen v)
  | .f64 values => values.map fun v => encodeFloat (ofBits v)

/-- `encode_vector_checked`. -/
def encodeVector (vector : CypherVector) : Json :=
  .object [(typeKey, .string "Vector".toList),
    ("coordinateType".toList, .string (coordinateTypeText vector.coordinateType)),
    ("dimension".toList, .int vector.values.len),
    ("values".toList, .array (encodeCoordinates vector.values))]

/-- A point; `json!` writes a float that is not finite as null. -/
def encodePoint (point : Cypher.PointValue) : Json :=
  .object [(typeKey, .string "Point".toList),
    ("coordinates".toList,
      .array (point.coordinates.map fun x => if isFinite x then .float x else .null)),
    ("crs".toList, .string point.crs)]

/-- A date and time with its zone. -/
def encodeZonedDateTime (value : Cypher.ZonedDateTimeValue) : Json :=
  .object [(typeKey, .string "ZonedDateTime".toList), ("value".toList, .string value.value),
    ("zone".toList, .string value.zone)]

/-! ## 3. Keys -/

def taggedKey (label : String) (value : Json) : Json := .array [.string label.toList, value]

/-- The key of a value that has no key of its own: its encoding, without numbers. -/
def encodedKey (encoded : Json) : Json := taggedKey "value" (canonicalizeJsonNumbers encoded)

def distinctPathKey (path : PathValue) : Json :=
  .array [.string "path".toList,
    .array (path.nodes.map fun node => .string node.elementId),
    .array (path.relationships.map fun relationship => .string relationship.elementId)]

mutual

def distinctValueKey : Value → Json
  | .null => .array [.string "null".toList]
  | .boolean value => taggedKey "boolean" (.bool value)
  | .integer value => taggedKey "number" (.string ('i' :: ':' :: integerText value))
  | .float value => taggedKey "number" (.string (floatDistinctKey value))
  | .string value => taggedKey "string" (.string value)
  | .list values => taggedKey "list" (.array (distinctItemKeys values))
  | .map entries => taggedKey "map" (.array (distinctEntryKeys entries))
  | .node value => taggedKey "node" (.string value.elementId)
  | .relationship value => taggedKey "relationship" (.string value.elementId)
  | .path value => distinctPathKey value
  | .date value => encodedKey (taggedText "Date" value.text)
  | .localTime value => encodedKey (taggedText "LocalTime" value.text)
  | .time value => encodedKey (taggedText "Time" value.text)
  | .localDateTime value => encodedKey (taggedText "LocalDateTime" value.text)
  | .zonedDateTime value => encodedKey (encodeZonedDateTime value)
  | .duration value => encodedKey (taggedText "Duration" (formatDuration value))
  | .point value => encodedKey (encodePoint value)
  | .vector value => encodedKey (encodeVector value)
  | .uuid value => encodedKey (taggedText "UUID" (uuidText value.bytes))

/-- The keys of the items of a list, and of the columns of a row. -/
def distinctItemKeys : List Value → List Json
  | [] => []
  | value :: rest => distinctValueKey value :: distinctItemKeys rest

/-- `distinct_map_key`. -/
def distinctEntryKeys : List (Text × Value) → List Json
  | [] => []
  | (name, value) :: rest =>
    .array [.string name, distinctValueKey value] :: distinctEntryKeys rest

end

/-- `distinct_row_key`, as bytes. -/
def distinctRowKey (floatText : F64 → Text) (row : List Value) : Bytes :=
  Text.utf8 (compact floatText (.array (distinctItemKeys row)))

/-- One and `1.0` are one number. -/
example : distinctValueKey (.integer 1) = distinctValueKey (.float ⟨0x3ff0000000000000⟩) := by
  rfl

end Lithograph.Query.Expression
