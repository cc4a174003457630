/-
  File:      Lithograph/Storage/Encoding.lean
  Subject:   Storage errors, texts, machine numbers as bytes and the LCE1 record (`storage/mod.rs`,
             `storage/encoding.rs`).

  A text is the list of its characters, ordered as its UTF-8 bytes are. A binary64 number is its bit
  pattern (`F64`).
-/
import Lithograph.Library.TreeMap

namespace Lithograph

/-- A string, as its characters. -/
abbrev Text := List Char

/-- A byte string. -/
abbrev Bytes := List UInt8

namespace Storage

/-- `StorageError` (storage/mod.rs); of the failures of SQLite itself only the violated key. -/
inductive StorageError where
  | corrupt (message : String)
  | notFound (message : String)
  | branchHeadMoved
  | constraint (message : String)
  deriving DecidableEq, Repr

abbrev StorageResult (α : Type) := Except StorageError α

/-- `Display for StorageError`. -/
def StorageError.message : StorageError → String
  | .corrupt message => "corrupt Lithograph storage: " ++ message
  | .notFound message => "Lithograph object not found: " ++ message
  | .branchHeadMoved => "branch head moved during storage write"
  | .constraint message => message

abbrev NodeId := Int
abbrev LabelId := Int
abbrev RelationshipId := Int
abbrev RelationshipTypeId := Int
abbrev PropertyKeyId := Int

/-- The kind of element a property belongs to. -/
inductive OwnerKind where
  | node
  | relationship
  deriving DecidableEq, Repr

/-- `owner_kind as i64`. -/
def OwnerKind.toInt : OwnerKind → Int
  | .node => 1
  | .relationship => 2

/-- The derived order: nodes before relationships. -/
instance : Ord OwnerKind := ⟨fun a b => compare a.toInt b.toInt⟩

instance : Std.TransOrd OwnerKind := inferInstanceAs (Std.TransCmp (compareOn OwnerKind.toInt))

theorem OwnerKind.toInt_inj {a b : OwnerKind} (h : a.toInt = b.toInt) : a = b := by
  cases a <;> cases b <;> first | rfl | cases h

instance : Std.LawfulEqOrd OwnerKind where
  eq_of_compare h := OwnerKind.toInt_inj (Std.LawfulEqOrd.eq_of_compare h)

/-! ## 1. Bytes of numbers and texts -/

/-- The `width` low bytes of `n`, least significant first. -/
def leBytes : Nat → Nat → Bytes
  | 0, _ => []
  | width + 1, n => UInt8.ofNat n :: leBytes width (n / 256)

/-- The number the bytes spell, least significant first. -/
def leNat : Bytes → Nat
  | [] => 0
  | b :: rest => b.toNat + 256 * leNat rest

def i64Bytes (value : Int) : Bytes := leBytes 8 (value % 2 ^ 64).toNat
def i32Bytes (value : Int) : Bytes := leBytes 4 (value % 2 ^ 32).toNat
def u64Bytes (value : Nat) : Bytes := leBytes 8 value
def u32Bytes (value : Nat) : Bytes := leBytes 4 value

/-- `put_uleb`: seven bits a byte, the high bit on every byte but the last; a `u64` needs at most
    ten. -/
def ulebFuel : Nat → Nat → Bytes
  | 0, _ => []
  | fuel + 1, n =>
    if n / 128 = 0 then [UInt8.ofNat n]
    else UInt8.ofNat (n % 128 + 128) :: ulebFuel fuel (n / 128)

def ulebBytes (value : Nat) : Bytes := ulebFuel 10 value

/-- The UTF-8 bytes of a text. -/
def Text.utf8 (t : Text) : Bytes := t.flatMap String.utf8EncodeChar

/-- `encode_counted`: the number of items, then each with its length in front. -/
def encodeCounted (items : List Bytes) : Bytes :=
  ulebBytes items.length ++ items.flatMap fun item => ulebBytes item.length ++ item

/-- `record`: the magic, the domain and the counted fields. -/
def record (domain : String) (fields : List Bytes) : Bytes :=
  Text.utf8 "LCE1".toList ++ ulebBytes (Text.utf8 domain.toList).length ++
    Text.utf8 domain.toList ++ encodeCounted fields

/-- `uleb_len`. -/
def ulebLenFuel : Nat → Nat → Nat
  | 0, _ => 1
  | fuel + 1, value => if value < 128 then 1 else ulebLenFuel fuel (value / 128) + 1

def ulebLen (value : Nat) : Nat := ulebLenFuel 9 value

def encodedFieldLen (len field : Nat) : StorageResult Nat :=
  if 2 ^ 64 ≤ len + ulebLen field + field then
    .error (.corrupt "LCE1 encoded field size overflow")
  else .ok (len + ulebLen field + field)

/-- `record_checked`: the record, where its size is addressable. -/
def recordChecked (domain : String) (fields : List Bytes) : StorageResult Bytes := do
  let name := Text.utf8 domain.toList
  let _ ← fields.foldlM (fun len field => encodedFieldLen len field.length)
    (4 + ulebLen name.length + name.length + ulebLen fields.length)
  pure (record domain fields)

def encodeCountedChecked (items : List Bytes) : StorageResult Bytes := do
  let _ ← items.foldlM (fun len item => encodedFieldLen len item.length) (ulebLen items.length)
  pure (encodeCounted items)

/-- `optional_bytes`: one presence byte in front. -/
def optionalBytes : Option Bytes → Bytes
  | some value => 1 :: value
  | none => [0]

def optionalBytesChecked (value : Option Bytes) : StorageResult Bytes :=
  if 2 ^ 64 ≤ (optionalBytes value).length then .error (.corrupt "optional property size overflow")
  else .ok (optionalBytes value)

/-! ## 2. Floating-point numbers -/

/-- A binary64 number, as its bits. -/
structure F64 where
  bits : UInt64
  deriving DecidableEq, Repr

/-- `f64::is_nan`: the exponent is all ones and the fraction is not zero. -/
def F64.isNan (x : F64) : Bool := x.bits &&& 0x7fffffffffffffff > 0x7ff0000000000000

/-- `canonical_f64_bits`: one bit pattern stands for every NaN. -/
def canonicalF64Bits (x : F64) : Nat :=
  if x.isNan then 0x7ff8000000000000 else x.bits.toNat

/-- `canonical_f32_bits`, on the bits of a binary32 number. -/
def canonicalF32Bits (bits : Nat) : Nat :=
  if 0x7f800000 < bits % 2 ^ 31 then 0x7fc00000 else bits

/-! ## 3. JSON -/

/-- `serde_json::Value`. An object is its fields in the order of the keys, each key once. -/
inductive Json where
  | null
  | bool (value : Bool)
  | int (value : Int)
  | float (value : F64)
  | string (value : Text)
  | array (items : List Json)
  | object (fields : List (Text × Json))

end Storage

end Lithograph
