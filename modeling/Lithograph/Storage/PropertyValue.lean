/-
  File:      Lithograph/Storage/PropertyValue.lean
  Subject:   Stored property values and their canonical bytes (`storage/value.rs`).

  The canonical form merges the bit patterns of NaN and nothing else. A vector whose payload does
  not fit its dimension has none (`canonicalBytes` fails).
-/
import Lithograph.Storage.Encoding

namespace Lithograph.Storage

structure ZonedDateTimeValue where
  epochSeconds : Int
  nanoseconds : Nat
  zoneId : Text
  deriving DecidableEq, Repr

structure PointValue where
  crs : Int
  coordinates : List F64
  deriving DecidableEq, Repr

inductive VectorCoordinateType where
  | i8 | i16 | i32 | i64 | f32 | f64
  deriving DecidableEq, Repr

/-- `coordinate_type as u8`. -/
def VectorCoordinateType.tag : VectorCoordinateType → UInt8
  | .i8 => 1
  | .i16 => 2
  | .i32 => 3
  | .i64 => 4
  | .f32 => 5
  | .f64 => 6

/-- `coordinate_width`. -/
def VectorCoordinateType.width : VectorCoordinateType → Nat
  | .i8 => 1
  | .i16 => 2
  | .i32 | .f32 => 4
  | .i64 | .f64 => 8

structure VectorValue where
  coordinateType : VectorCoordinateType
  dimension : Nat
  packed : Bytes
  deriving DecidableEq, Repr

/-- `PropertyValue`: a property value as storage format 1 keeps it. -/
inductive PropertyValue where
  | boolean (value : Bool)
  | integer (value : Int)
  | float (value : F64)
  | string (value : Text)
  | list (values : List PropertyValue)
  | date (days : Int)
  | localTime (nanoseconds : Nat)
  | time (nanoseconds : Nat) (offsetSeconds : Int)
  | localDateTime (day : Int) (nanoseconds : Nat)
  | zonedDateTime (value : ZonedDateTimeValue)
  | duration (months days seconds nanoseconds : Int)
  | point (value : PointValue)
  | vector (value : VectorValue)
  | uuid (value : Bytes)
  deriving Repr

def PropertyValue.typeTag : PropertyValue → Nat
  | .boolean _ => 1
  | .integer _ => 2
  | .float _ => 3
  | .string _ => 4
  | .list _ => 5
  | .date _ => 6
  | .localTime _ => 7
  | .time _ _ => 8
  | .localDateTime _ _ => 9
  | .zonedDateTime _ => 10
  | .duration _ _ _ _ => 11
  | .point _ => 12
  | .vector _ => 13
  | .uuid _ => 14

def pointFields (value : PointValue) : List Bytes :=
  [[12], i64Bytes value.crs, ulebBytes value.coordinates.length,
    value.coordinates.flatMap fun c => u64Bytes (canonicalF64Bits c)]

/-- `canonicalize_float_vector`: every chunk of `width` bytes replaced by its canonical form. -/
def canonicalizeChunks (width : Nat) (canonical : Nat → Nat) : Nat → Bytes → Bytes
  | 0, _ => []
  | n + 1, bytes =>
    leBytes width (canonical (leNat (bytes.take width))) ++
      canonicalizeChunks width canonical n (bytes.drop width)

def canonicalizeVectorBytes (value : VectorValue) : StorageResult Bytes :=
  let expected := value.dimension * value.coordinateType.width
  if 2 ^ 64 ≤ expected then
    .error (.corrupt "Vector dimension overflows addressable size")
  else if value.packed.length ≠ expected then
    .error (.corrupt "Vector payload length does not match dimension")
  else
    match value.coordinateType with
    | .f32 => .ok (canonicalizeChunks 4 canonicalF32Bits value.dimension value.packed)
    | .f64 => .ok (canonicalizeChunks 8 (fun n => canonicalF64Bits ⟨UInt64.ofNat n⟩)
        value.dimension value.packed)
    | _ => .ok value.packed

def vectorFields (value : VectorValue) : StorageResult (List Bytes) := do
  let packed ← canonicalizeVectorBytes value
  pure [[13], [value.coordinateType.tag], ulebBytes value.dimension, packed]

mutual

def PropertyValue.canonicalBytes : PropertyValue → StorageResult Bytes
  | .boolean value => recordChecked "VALUE" [[1], [if value then 1 else 0]]
  | .integer value => recordChecked "VALUE" [[2], i64Bytes value]
  | .float value => recordChecked "VALUE" [[3], u64Bytes (canonicalF64Bits value)]
  | .string value => recordChecked "VALUE" [[4], Text.utf8 value]
  | .list values => do
      let items ← canonicalItems values
      let counted ← encodeCountedChecked items
      recordChecked "VALUE" [[5], counted]
  | .date days => recordChecked "VALUE" [[6], i64Bytes days]
  | .localTime nanos => recordChecked "VALUE" [[7], u64Bytes nanos]
  | .time nanos offset => recordChecked "VALUE" [[8], u64Bytes nanos, i32Bytes offset]
  | .localDateTime day nanos => recordChecked "VALUE" [[9], i64Bytes day, u64Bytes nanos]
  | .zonedDateTime value =>
      recordChecked "VALUE" [[10], i64Bytes value.epochSeconds, u32Bytes value.nanoseconds,
        Text.utf8 value.zoneId]
  | .duration months days seconds nanos =>
      recordChecked "VALUE" [[11], i64Bytes months, i64Bytes days, i64Bytes seconds, i64Bytes nanos]
  | .point value => recordChecked "VALUE" (pointFields value)
  | .vector value => do
      let fields ← vectorFields value
      recordChecked "VALUE" fields
  | .uuid value => recordChecked "VALUE" [[14], value]

/-- The canonical bytes of every item of a list. -/
def canonicalItems : List PropertyValue → StorageResult (List Bytes)
  | [] => .ok []
  | value :: rest => do
      let item ← value.canonicalBytes
      let items ← canonicalItems rest
      pure (item :: items)

end

def canonicalValuesEqual (left right : PropertyValue) : StorageResult Bool := do
  let left ← left.canonicalBytes
  let right ← right.canonicalBytes
  pure (left == right)

def propertyStatesEqual : Option PropertyValue → Option PropertyValue → StorageResult Bool
  | none, none => .ok true
  | some left, some right => canonicalValuesEqual left right
  | _, _ => .ok false

/-- Two property states a reader cannot tell apart: the same value, or values with the same
    canonical bytes. -/
def SameProperty (left right : Option PropertyValue) : Prop :=
  left = right ∨ propertyStatesEqual left right = .ok true

theorem canonicalValuesEqual_true {a b : PropertyValue} :
    canonicalValuesEqual a b = .ok true ↔
      ∃ bytes, a.canonicalBytes = .ok bytes ∧ b.canonicalBytes = .ok bytes := by
  unfold canonicalValuesEqual
  constructor
  · intro h
    obtain ⟨x, hx, h⟩ := Library.bind_eq_ok.mp h
    obtain ⟨y, hy, h⟩ := Library.bind_eq_ok.mp h
    have hxy : (x == y) = true := by simpa [pure, Except.pure] using h
    rw [beq_iff_eq] at hxy
    subst hxy
    exact ⟨x, hx, hy⟩
  · rintro ⟨bytes, ha, hb⟩
    simp [ha, hb, bind, Except.bind, pure, Except.pure]

theorem sameProperty_refl (a : Option PropertyValue) : SameProperty a a := Or.inl rfl

end Lithograph.Storage
