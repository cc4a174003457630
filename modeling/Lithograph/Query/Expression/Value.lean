/-
  File:      Lithograph/Query/Expression/Value.lean
  Subject:   The values expressions compute with, and how Cypher compares them (`cypher/value.rs`,
             `cypher/value_order.rs`).

  A map is its entries in the order of the keys. Of a graph element only the identity is compared.
-/
import Lithograph.Cypher.Value
import Lithograph.Library.Lexicographic
import Lithograph.Query.Schema.Equality

namespace Lithograph.Query.Expression

open Library Storage Cypher

/-! ## 1. Values -/

structure NodeValue where
  elementId : Text
  deriving DecidableEq, Repr

structure RelationshipValue where
  elementId : Text
  deriving DecidableEq, Repr

structure PathValue where
  nodes : List NodeValue
  relationships : List RelationshipValue
  deriving DecidableEq, Repr

inductive Value where
  | null
  | boolean (value : Bool)
  | integer (value : Int)
  | float (value : F64)
  | string (value : Text)
  | list (values : List Value)
  | map (entries : List (Text × Value))
  | node (value : NodeValue)
  | relationship (value : RelationshipValue)
  | path (value : PathValue)
  | date (value : DateValue)
  | localTime (value : LocalTimeValue)
  | time (value : TimeValue)
  | localDateTime (value : LocalDateTimeValue)
  | zonedDateTime (value : Cypher.ZonedDateTimeValue)
  | duration (value : DurationValue)
  | point (value : Cypher.PointValue)
  | vector (value : CypherVector)
  | uuid (value : UuidValue)

def valueTypeName : Value → String
  | .null => "NULL"
  | .boolean _ => "BOOLEAN"
  | .integer _ => "INTEGER"
  | .float _ => "FLOAT"
  | .string _ => "STRING"
  | .list _ => "LIST"
  | .map _ => "MAP"
  | .node _ => "NODE"
  | .relationship _ => "RELATIONSHIP"
  | .path _ => "PATH"
  | .date _ => "DATE"
  | .localTime _ => "LOCAL TIME"
  | .time _ => "ZONED TIME"
  | .localDateTime _ => "LOCAL DATETIME"
  | .zonedDateTime _ => "ZONED DATETIME"
  | .duration _ => "DURATION"
  | .point _ => "POINT"
  | .vector _ => "VECTOR"
  | .uuid _ => "UUID"

mutual

/-- A map has each key once. -/
def Value.Formed : Value → Prop
  | .list values => Value.FormedItems values
  | .map entries => (entries.map Prod.fst).Nodup ∧ Value.FormedEntries entries
  | _ => True

def Value.FormedItems : List Value → Prop
  | [] => True
  | value :: rest => value.Formed ∧ Value.FormedItems rest

def Value.FormedEntries : List (Text × Value) → Prop
  | [] => True
  | (_, value) :: rest => value.Formed ∧ Value.FormedEntries rest

end

/-! ## 2. Numbers -/

/-- A float on the line: the absolute value is ordered as its bits are, and the zeros are equal. -/
def floatOrder (x : F64) : Int := if floatNegative x then -(floatMagnitude x) else floatMagnitude x

def numericEqual (left right : F64) : Bool :=
  if left.isNan || right.isNan then false else floatOrder left == floatOrder right

def partialNumberCmp (left right : F64) : Option Ordering :=
  if left.isNan || right.isNan then none else some (compare (floatOrder left) (floatOrder right))

/-- `float.trunc()` of a finite float. -/
def floatTrunc (x : F64) : Int :=
  let parts := floatParts x
  let whole : Nat :=
    if 0 ≤ parts.2 then parts.1 * 2 ^ parts.2.toNat else parts.1 / 2 ^ (-parts.2).toNat
  if floatNegative x then -whole else whole

/-- A finite float is not whole. -/
def floatHasFraction (x : F64) : Bool :=
  let parts := floatParts x
  parts.2 < 0 && parts.1 % 2 ^ (-parts.2).toNat != 0

def integerFloatCmp (integer : Int) (float : F64) : Option Ordering :=
  if float.isNan then none
  else if floatOrder float = 0x7ff0000000000000 then some .lt
  else if floatOrder float = -0x7ff0000000000000 then some .gt
  else if 0x43e0000000000000 ≤ floatOrder float then some .lt
  else if floatOrder float < -0x43e0000000000000 then some .gt
  else match compare integer (floatTrunc float) with
    | .eq =>
      if !floatHasFraction float then some .eq
      else if floatNegative float then some .gt else some .lt
    | ordering => some ordering

def sortFloat (left right : F64) : Ordering :=
  match left.isNan, right.isNan with
  | true, true => .eq
  | true, false => .gt
  | false, true => .lt
  | false, false => (partialNumberCmp left right).getD .eq

def sortIntegerFloat (integer : Int) (float : F64) : Ordering :=
  if float.isNan then .lt else (integerFloatCmp integer float).getD .eq

/-- The absolute value of a binary32 number, as the bits of the binary64 number. -/
def widenMagnitude (m : Nat) : Nat :=
  if m = 0 then 0
  else if m < 2 ^ 23 then (m.log2 + 874) * 2 ^ 52 + (m - 2 ^ m.log2) * 2 ^ (52 - m.log2)
  else if m < 0x7f800000 then m * 2 ^ 29 + 896 * 2 ^ 52
  else if m = 0x7f800000 then 0x7ff0000000000000
  else 0x7ff8000000000000 + m % 2 ^ 22 * 2 ^ 29

/-- `f64::from` of the bits of a binary32 number. -/
def widen (x : BitVec 32) : F64 :=
  ⟨UInt64.ofNat ((if 2 ^ 31 ≤ x.toNat then 2 ^ 63 else 0) + widenMagnitude (x.toNat % 2 ^ 31))⟩

def ofBits (x : BitVec 64) : F64 := ⟨UInt64.ofBitVec x⟩

/-- `==` of binary32 numbers. -/
def equalF32 (left right : BitVec 32) : Bool :=
  let nan (x : BitVec 32) : Bool := 0x7f800000 < x.toNat % 2 ^ 31
  let order (x : BitVec 32) : Int :=
    if 2 ^ 31 ≤ x.toNat then -(x.toNat % 2 ^ 31 : Nat) else (x.toNat % 2 ^ 31 : Nat)
  !nan left && !nan right && order left == order right

/-! ## 3. Equality -/

def pathIdentityEquals (left right : PathValue) : Bool :=
  left.nodes.length == right.nodes.length &&
    left.relationships.length == right.relationships.length &&
    (left.nodes.zip right.nodes).all (fun p => p.1.elementId == p.2.elementId) &&
    (left.relationships.zip right.relationships).all (fun p => p.1.elementId == p.2.elementId)

/-- A value of a list is the node, or the relationship, with the id. -/
def isNodeWith (id : Text) : Option Value → Bool
  | some (.node node) => id == node.elementId
  | _ => false

def isRelationshipWith (id : Text) : Option Value → Bool
  | some (.relationship relationship) => id == relationship.elementId
  | _ => false

def pathListEquals (path : PathValue) (values : List Value) : Bool :=
  if path.nodes.length != path.relationships.length + 1 ||
      values.length != path.nodes.length + path.relationships.length then false
  else path.nodes.zipIdx.all fun p =>
    isNodeWith p.1.elementId values[p.2 * 2]? &&
      match path.relationships[p.2]? with
      | none => true
      | some relationship => isRelationshipWith relationship.elementId values[p.2 * 2 + 1]?

def vectorEqual (left right : CypherVector) : ValueResult (Option Bool) :=
  if left.coordinateType ≠ right.coordinateType ∨ left.values.len ≠ right.values.len then
    .error
      ⟨"VECTOR values with different coordinate types or dimensions are not equality-comparable"⟩
  else .ok (some (match left.values, right.values with
    | .i8 left, .i8 right => left == right
    | .i16 left, .i16 right => left == right
    | .i32 left, .i32 right => left == right
    | .i64 left, .i64 right => left == right
    | .f32 left, .f32 right => (left.zip right).all fun p => numericEqual (widen p.1) (widen p.2)
    | .f64 left, .f64 right => (left.zip right).all fun p => numericEqual (ofBits p.1) (ofBits p.2)
    | _, _ => false))

/-- Values of two families. -/
def cannotCompare (left right : Value) : ValueResult (Option Bool) :=
  .error ⟨"Cypher equality cannot compare " ++ valueTypeName left ++ " with " ++
    valueTypeName right⟩

/-- `(!has_null).then_some(true)`. -/
def unlessNull (hasNull : Bool) : Option Bool := if hasNull then none else some true

mutual

def cypherEquals (left right : Value) : ValueResult (Option Bool) :=
  match left, right with
  | .null, _ => .ok none
  | _, .null => .ok none
  | .integer left, .integer right => .ok (some (left == right))
  | .integer left, .float right => .ok (some (integerFloatCmp left right == some .eq))
  | .float left, .integer right => .ok (some (integerFloatCmp right left == some .eq))
  | .float left, .float right => .ok (some (numericEqual left right))
  | .boolean left, .boolean right => .ok (some (left == right))
  | .string left, .string right => .ok (some (left == right))
  | .list left, .list right =>
    if left.length != right.length then .ok (some false) else listEquals left right false
  | .map left, .map right =>
    if left.length != right.length || left.map Prod.fst != right.map Prod.fst then .ok (some false)
    else mapEquals left right false
  | .uuid left, .uuid right => .ok (some (left == right))
  | .date left, .date right => .ok (some (left.days == right.days))
  | .localTime left, .localTime right => .ok (some (left.nanoseconds == right.nanoseconds))
  | .time left, .time right => .ok (some
      (left.instantKey == right.instantKey && left.offsetSeconds == right.offsetSeconds))
  | .localDateTime left, .localDateTime right => .ok (some
      (left.days == right.days && left.nanoseconds == right.nanoseconds))
  | .duration left, .duration right => .ok (some (left == right))
  | .zonedDateTime left, .zonedDateTime right => .ok (some
      (left.instantNanoseconds == right.instantNanoseconds &&
        left.offsetSeconds == right.offsetSeconds && left.zone == right.zone))
  | .point left, .point right => .ok (some (left.crs == right.crs && left.srid == right.srid &&
      left.coordinates.length == right.coordinates.length &&
      (left.coordinates.zip right.coordinates).all fun p => numericEqual p.1 p.2))
  | .vector left, .vector right => vectorEqual left right
  | .node left, .node right => .ok (some (left.elementId == right.elementId))
  | .relationship left, .relationship right => .ok (some (left.elementId == right.elementId))
  | .path left, .path right => .ok (some (pathIdentityEquals left right))
  | .path path, .list values => .ok (some (pathListEquals path values))
  | .list values, .path path => .ok (some (pathListEquals path values))
  | left, right => cannotCompare left right

/-- `list_equals`, behind the check of the lengths. -/
def listEquals : List Value → List Value → Bool → ValueResult (Option Bool)
  | left :: lefts, right :: rights, hasNull => do
    match ← cypherEquals left right with
    | some true => listEquals lefts rights hasNull
    | some false => pure (some false)
    | none => listEquals lefts rights true
  | _, _, hasNull => .ok (unlessNull hasNull)

/-- `map_equals`, behind the check of the keys. -/
def mapEquals : List (Text × Value) → List (Text × Value) → Bool → ValueResult (Option Bool)
  | [], _, hasNull => .ok (unlessNull hasNull)
  | (key, left) :: lefts, rights, hasNull =>
    match rights.lookup key with
    | none => .ok (some false)
    | some right => do
      match ← cypherEquals left right with
      | some true => mapEquals lefts rights hasNull
      | some false => pure (some false)
      | none => mapEquals lefts rights true

end

/-! ## 4. Order -/

/-- The order of strings is the order of their bytes. -/
def textCmp (left right : Text) : Ordering := compare (Text.utf8 left) (Text.utf8 right)

def valueOrderRank : Value → Nat
  | .map _ => 0
  | .node _ => 1
  | .relationship _ => 2
  | .list _ => 3
  | .path _ => 4
  | .vector _ => 5
  | .point _ => 6
  | .zonedDateTime _ => 7
  | .localDateTime _ => 8
  | .date _ => 9
  | .time _ => 10
  | .localTime _ => 11
  | .duration _ => 12
  | .string _ => 13
  | .boolean _ => 14
  | .uuid _ => 15
  | .integer _ => 16
  | .float _ => 16
  | .null => 17

def durationSortKey (duration : DurationValue) : Int :=
  duration.months * 48699 * (86400 * 1000000000) + duration.days * 1600 * (86400 * 1000000000) +
    duration.seconds * 1600 * 1000000000 + duration.nanoseconds * 1600

def pointOrderCompare (left right : Cypher.PointValue) : Ordering :=
  (compare left.srid right.srid).then
    (zipOrder (fun x y => (partialNumberCmp x y).getD .eq) left.coordinates right.coordinates)

def vectorTypeRank : VectorCoordinateType → Nat
  | .i8 => 0
  | .i16 => 1
  | .i32 => 2
  | .i64 => 3
  | .f32 => 4
  | .f64 => 5

/-- The order of integer coordinates. -/
def signedCmp {width : Nat} (left right : BitVec width) : Ordering := compare left.toInt right.toInt

/-- `vector_order_compare`. Coordinates of another type than the vector's are never built. -/
def vectorOrderCompare (left right : CypherVector) : Ordering :=
  (compare (vectorTypeRank left.coordinateType) (vectorTypeRank right.coordinateType)).then
    ((compare left.values.len right.values.len).then
      (match left.values, right.values with
        | .i8 left, .i8 right => List.compareLex signedCmp left right
        | .i16 left, .i16 right => List.compareLex signedCmp left right
        | .i32 left, .i32 right => List.compareLex signedCmp left right
        | .i64 left, .i64 right => List.compareLex signedCmp left right
        | .f32 left, .f32 right => zipOrder (fun x y => sortFloat (widen x) (widen y)) left right
        | .f64 left, .f64 right => zipOrder (fun x y => sortFloat (ofBits x) (ofBits y)) left right
        | _, _ => .eq))

/-- The identities of a path from its start: nodes at even places, relationships at odd ones. -/
def pathIdentity (path : PathValue) (index : Nat) : Text :=
  if index % 2 = 0 then (path.nodes[index / 2]?.map NodeValue.elementId).getD []
  else (path.relationships[index / 2]?.map RelationshipValue.elementId).getD []

/-- A path has one node more than relationships. -/
def pathBroken (path : PathValue) : Bool := path.nodes.length != path.relationships.length + 1

def pathRefused {α : Type} : ValueResult α :=
  .error ⟨"PATH requires exactly one more node than relationship"⟩

def pathLength (path : PathValue) : Nat := path.nodes.length + path.relationships.length

/-- The first difference among some places. -/
def firstDifference (order : Nat → Ordering) : List Nat → Ordering
  | [] => .eq
  | index :: rest => (order index).then (firstDifference order rest)

def pathOrderCompare (left right : PathValue) : ValueResult Ordering :=
  if pathBroken left || pathBroken right then pathRefused
  else .ok ((firstDifference (fun index =>
      textCmp (pathIdentity left index) (pathIdentity right index))
    (List.range (min (pathLength left) (pathLength right)))).then
      (compare (pathLength left) (pathLength right)))

mutual

def cypherOrderCompare (left right : Value) : ValueResult Ordering :=
  if valueOrderRank left ≠ valueOrderRank right then
    .ok (compare (valueOrderRank left) (valueOrderRank right))
  else match left, right with
    | .map left, .map right =>
      match (compare left.length right.length).then
          (List.compareLex textCmp (left.map Prod.fst) (right.map Prod.fst)) with
      | .eq => mapOrder left right
      | ordering => .ok ordering
    | .node left, .node right => .ok (textCmp left.elementId right.elementId)
    | .relationship left, .relationship right => .ok (textCmp left.elementId right.elementId)
    | .list left, .list right => sequenceOrder left right
    | .path left, .path right => pathOrderCompare left right
    | .vector left, .vector right => .ok (vectorOrderCompare left right)
    | .point left, .point right => .ok (pointOrderCompare left right)
    | .zonedDateTime left, .zonedDateTime right => .ok
        (((compare left.instantNanoseconds right.instantNanoseconds).then
          (compare left.offsetSeconds right.offsetSeconds)).then (textCmp left.zone right.zone))
    | .localDateTime left, .localDateTime right => .ok
        ((compare left.days right.days).then (compare left.nanoseconds right.nanoseconds))
    | .date left, .date right => .ok (compare left.days right.days)
    | .time left, .time right => .ok ((compare left.instantKey right.instantKey).then
        (compare left.offsetSeconds right.offsetSeconds))
    | .localTime left, .localTime right => .ok (compare left.nanoseconds right.nanoseconds)
    | .duration left, .duration right =>
      .ok (compare (durationSortKey left) (durationSortKey right))
    | .string left, .string right => .ok (textCmp left right)
    | .boolean left, .boolean right => .ok (compare left right)
    | .uuid left, .uuid right => .ok (compare left.bytes right.bytes)
    | .integer left, .integer right => .ok (compare left right)
    | .integer left, .float right => .ok (sortIntegerFloat left right)
    | .float left, .integer right => .ok (sortIntegerFloat right left).swap
    | .float left, .float right => .ok (sortFloat left right)
    | .null, .null => .ok .eq
    | _, _ =>
      .error ⟨"internal value ordering rank collision between different Cypher value families"⟩

/-- `sequence_order_compare`: the length decides where one list is the beginning of the other. -/
def sequenceOrder : List Value → List Value → ValueResult Ordering
  | left :: lefts, right :: rights => do
    match ← cypherOrderCompare left right with
    | .eq => sequenceOrder lefts rights
    | ordering => pure ordering
  | [], [] => .ok .eq
  | [], _ :: _ => .ok .lt
  | _ :: _, [] => .ok .gt

/-- `map_order_compare`, behind the comparison of sizes and keys. -/
def mapOrder : List (Text × Value) → List (Text × Value) → ValueResult Ordering
  | [], _ => .ok .eq
  | (key, left) :: lefts, rights =>
    match rights.lookup key with
    | none => .ok .eq
    | some right => do
      match ← cypherOrderCompare left right with
      | .eq => mapOrder lefts rights
      | ordering => pure ordering

end

end Lithograph.Query.Expression
