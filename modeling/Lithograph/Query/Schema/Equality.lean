/-
  File:      Lithograph/Query/Schema/Equality.lean
  Subject:   The bytes by which a uniqueness constraint compares property values
             (`query/schema/equality.rs`, `query/schema/validate/controlled.rs`).

  A float that is a whole number has the key of the integer; a value with a NaN in it has none.
-/
import Lithograph.Query.Error
import Lithograph.Storage.PropertyValue

namespace Lithograph.Query

open Storage

/-! ## 1. Numbers -/

/-- The bits of a float without the sign. -/
def floatMagnitude (x : F64) : Nat := x.bits.toNat % 2 ^ 63

/-- The float is negative, or minus zero. -/
def floatNegative (x : F64) : Bool := 2 ^ 63 ≤ x.bits.toNat

/-- The absolute value of a finite float as a significand and a power of two. -/
def floatParts (x : F64) : Nat × Int :=
  let exponent : Nat := floatMagnitude x / 2 ^ 52
  let fraction : Nat := floatMagnitude x % 2 ^ 52
  if exponent = 0 then (fraction, -1074) else (2 ^ 52 + fraction, (exponent : Int) - 1075)

/-- The absolute value of a finite float, where it is a whole number. -/
def wholeMagnitude (x : F64) : Option Nat :=
  let parts := floatParts x
  if 0 ≤ parts.2 then some (parts.1 * 2 ^ parts.2.toNat)
  else if parts.1 % 2 ^ (-parts.2).toNat = 0 then some (parts.1 / 2 ^ (-parts.2).toNat)
  else none

def floatAsExactInteger (x : F64) : Option Int :=
  if 0x7ff0000000000000 ≤ floatMagnitude x then none
  else do
    let whole ← wholeMagnitude x
    let value : Int := if floatNegative x then -whole else whole
    if -2 ^ 63 ≤ value ∧ value < 2 ^ 63 then some value else none

def equalityF64Bits (x : F64) : Option Nat :=
  if x.isNan then none else if floatMagnitude x = 0 then some 0 else some x.bits.toNat

/-- `normalized_f32`, on the bits of a binary32 number. -/
def equalityF32Bits (bits : Nat) : Option Nat :=
  if 0x7f800000 < bits % 2 ^ 31 then none else if bits % 2 ^ 31 = 0 then some 0 else some bits

/-! ## 2. Keys -/

def numericKey (value : Int) : Bytes := Text.utf8 "number".toList ++ i64Bytes value

def typedKey (value : PropertyValue) : QueryResult Bytes := do
  let canonical ← ofStorage value.canonicalBytes
  pure (Text.utf8 "typed".toList ++ canonical)

/-- A part of a key with its length in front. -/
def keyPart (part : Bytes) : Bytes := u64Bytes part.length ++ part

/-- `coordinate_keys`: the full chunks of a packed vector, one after the other. -/
def coordinateKeys (width : Nat) (normalize : Nat → Option Nat) : Nat → Bytes → Bytes → Option Bytes
  | 0, _, key => some key
  | n + 1, packed, key =>
    match normalize (leNat (packed.take width)) with
    | none => none
    | some bits => coordinateKeys width normalize n (packed.drop width) (key ++ leBytes width bits)

def pointKey (point : PointValue) : Option Bytes :=
  let key := Text.utf8 "point".toList ++ i64Bytes point.crs ++ u64Bytes point.coordinates.length
  point.coordinates.foldlM (fun key coordinate => do
    let bits ← equalityF64Bits coordinate
    pure (key ++ u64Bytes bits)) key

def vectorKey (vector : VectorValue) : QueryResult (Option Bytes) := do
  let _ ← ofStorage (PropertyValue.vector vector).canonicalBytes
  let key := Text.utf8 "vector".toList ++ [vector.coordinateType.tag] ++ u64Bytes vector.dimension
  match vector.coordinateType with
  | .f32 => pure (coordinateKeys 4 equalityF32Bits (vector.packed.length / 4) vector.packed key)
  | .f64 => pure (coordinateKeys 8 (fun bits => equalityF64Bits ⟨UInt64.ofNat bits⟩)
      (vector.packed.length / 8) vector.packed key)
  | _ => (typedKey (.vector vector)).map some

mutual

/-- `property_equality_key`, and `equality_key`. -/
def equalityKey : PropertyValue → QueryResult (Option Bytes)
  | .integer value => .ok (some (numericKey value))
  | .float value =>
    if value.isNan then .ok none
    else match floatAsExactInteger value with
      | some number => .ok (some (numericKey number))
      | none => (typedKey (.float value)).map some
  | .list values => listKey values (Text.utf8 "list".toList)
  | .point point => .ok (pointKey point)
  | .vector vector => vectorKey vector
  | value => (typedKey value).map some

/-- `list_key`: the first item without a key ends it. -/
def listKey : List PropertyValue → Bytes → QueryResult (Option Bytes)
  | [], key => .ok (some key)
  | value :: rest, key => do
    let part ← equalityKey value
    match part with
    | none => pure none
    | some part => listKey rest (key ++ keyPart part)

end

/-- `non_reflexive_key`: a key of the owner alone. -/
def nonReflexiveKey (id : Int) : Bytes := Text.utf8 "non_reflexive".toList ++ i64Bytes id

example : equalityKey (.float ⟨0x4000000000000000⟩) = equalityKey (.integer 2) := rfl

end Lithograph.Query
