/-
  File:      Lithograph/Version/Canonical.lean
  Subject:   When two values of a slot are the same value (`query/version/canonical.rs`).

  * `sameValue_iff`: exactly when their canonical forms are equal.
-/
import Lithograph.Cypher.Value

namespace Lithograph.Version

open Library Storage Cypher

/-! ## 1. The comparison -/

def sameFloat (left right : F64) : Bool :=
  (left.isNan && right.isNan) || left.bits == right.bits

/-- `f32::is_nan`, on the bits. -/
def isNan32 (x : BitVec 32) : Bool := 0x7f800000 < x.toNat % 2 ^ 31

/-- The comparison of `same_f32_coordinates`. -/
def sameFloat32 (left right : BitVec 32) : Bool :=
  (isNan32 left && isNan32 right) || left == right

/-- Lists of one length whose items are the same one by one. -/
def sameItems {α : Type} (same : α → α → Bool) : List α → List α → Bool
  | [], [] => true
  | a :: as, b :: bs => same a b && sameItems same as bs
  | _, _ => false

/-- A coordinate of 64 bits as a number. -/
def float64 (x : BitVec 64) : F64 := ⟨⟨x⟩⟩

def sameVectors (left right : CypherVector) : Bool :=
  left.coordinateType == right.coordinateType &&
    match left.values, right.values with
    | .i8 a, .i8 b => a == b
    | .i16 a, .i16 b => a == b
    | .i32 a, .i32 b => a == b
    | .i64 a, .i64 b => a == b
    | .f32 a, .f32 b => sameItems sameFloat32 a b
    | .f64 a, .f64 b => sameItems (fun x y => sameFloat (float64 x) (float64 y)) a b
    | _, _ => false

mutual

/-- `same_value_controlled`. -/
def sameValue : Value → Value → Bool
  | .string a, .string b => a == b
  | .float a, .float b => sameFloat a b
  | .list a, .list b => sameValues a b
  | .map a, .map b => sameMaps a b
  | .point a, .point b =>
    a.crs == b.crs && a.srid == b.srid && sameItems sameFloat a.coordinates b.coordinates
  | .vector a, .vector b => sameVectors a b
  | .null, .null => true
  | .boolean a, .boolean b => a == b
  | .integer a, .integer b => a == b
  | .node, .node => true
  | .relationship, .relationship => true
  | .path, .path => true
  | .date a, .date b => a == b
  | .localTime a, .localTime b => a == b
  | .time a, .time b => a == b
  | .localDateTime a, .localDateTime b => a == b
  | .zonedDateTime a, .zonedDateTime b => a == b
  | .duration a, .duration b => a == b
  | .uuid a, .uuid b => a == b
  | _, _ => false

def sameValues : List Value → List Value → Bool
  | [], [] => true
  | a :: as, b :: bs => sameValue a b && sameValues as bs
  | _, _ => false

def sameMaps : List (Text × Value) → List (Text × Value) → Bool
  | [], [] => true
  | (key, a) :: as, (other, b) :: bs => key == other && sameValue a b && sameMaps as bs
  | _, _ => false

end

/-- `same_optional_value_controlled`. -/
def sameOptionalValue : Option Value → Option Value → Bool
  | some left, some right => sameValue left right
  | none, none => true
  | _, _ => false

/-! ## 2. Canonical forms -/

/-- One bit pattern for every NaN. -/
def canonicalFloat (x : F64) : F64 := if x.isNan then ⟨0x7ff8000000000000⟩ else x

def canonicalFloat32 (x : BitVec 32) : BitVec 32 := if isNan32 x then 0x7fc00000 else x

def canonicalVectorValues : VectorValues → VectorValues
  | .f32 values => .f32 (values.map canonicalFloat32)
  | .f64 values => .f64 (values.map fun x => (canonicalFloat (float64 x)).bits.toBitVec)
  | values => values

mutual

/-- The value with every NaN in its canonical form. -/
def canonicalValue : Value → Value
  | .float x => .float (canonicalFloat x)
  | .list values => .list (canonicalValues values)
  | .map entries => .map (canonicalEntries entries)
  | .point point => .point { point with coordinates := point.coordinates.map canonicalFloat }
  | .vector vector => .vector { vector with values := canonicalVectorValues vector.values }
  | value => value

def canonicalValues : List Value → List Value
  | [] => []
  | value :: rest => canonicalValue value :: canonicalValues rest

def canonicalEntries : List (Text × Value) → List (Text × Value)
  | [] => []
  | (key, value) :: rest => (key, canonicalValue value) :: canonicalEntries rest

end

theorem sameFloat_iff {a b : F64} : sameFloat a b = true ↔ canonicalFloat a = canonicalFloat b := by
  have hnan : F64.isNan ⟨0x7ff8000000000000⟩ = true := by decide
  unfold sameFloat canonicalFloat
  cases ha : a.isNan <;> cases hb : b.isNan
  · cases a
    cases b
    simp
  · simp only [Bool.false_and, Bool.false_or, beq_iff_eq, Bool.false_eq_true, if_false, if_true]
    constructor
    · intro h
      have : a = b := by cases a; cases b; simp_all
      rw [this, hb] at ha
      cases ha
    · intro h
      rw [h, hnan] at ha
      cases ha
  · simp only [Bool.and_false, Bool.false_or, beq_iff_eq, Bool.false_eq_true, if_false, if_true]
    constructor
    · intro h
      have : a = b := by cases a; cases b; simp_all
      rw [this, hb] at ha
      cases ha
    · intro h
      rw [← h, hnan] at hb
      cases hb
  · simp

theorem sameFloat32_iff {a b : BitVec 32} :
    sameFloat32 a b = true ↔ canonicalFloat32 a = canonicalFloat32 b := by
  unfold sameFloat32 canonicalFloat32
  cases ha : isNan32 a <;> cases hb : isNan32 b
  · simp
  · simp only [Bool.false_and, Bool.false_or, beq_iff_eq, Bool.false_eq_true, if_false, if_true]
    constructor
    · rintro rfl
      rw [hb] at ha
      cases ha
    · rintro rfl
      cases ha
  · simp only [Bool.and_false, Bool.false_or, beq_iff_eq, Bool.false_eq_true, if_false, if_true]
    constructor
    · rintro rfl
      rw [hb] at ha
      cases ha
    · rintro rfl
      cases hb
  · simp

theorem sameItems_iff {α : Type} {same : α → α → Bool} {form : α → α}
    (h : ∀ a b, same a b = true ↔ form a = form b) :
    ∀ as bs : List α, sameItems same as bs = true ↔ as.map form = bs.map form
  | [], [] => by simp [sameItems]
  | [], b :: bs => by simp [sameItems]
  | a :: as, [] => by simp [sameItems]
  | a :: as, b :: bs => by
    simp only [sameItems, Bool.and_eq_true, List.map_cons, List.cons.injEq, h a b,
      sameItems_iff h as bs]

theorem sameVectors_iff {a b : CypherVector} : sameVectors a b = true ↔
    a.coordinateType = b.coordinateType ∧
      canonicalVectorValues a.values = canonicalVectorValues b.values := by
  have h32 := @sameItems_iff _ sameFloat32 canonicalFloat32 fun a b => sameFloat32_iff
  have h64 := @sameItems_iff (BitVec 64) (fun x y => sameFloat (float64 x) (float64 y))
    (fun x => (canonicalFloat (float64 x)).bits.toBitVec) fun x y => by
      rw [sameFloat_iff]
      constructor
      · intro h
        rw [h]
      · intro h
        cases hx : canonicalFloat (float64 x)
        cases hy : canonicalFloat (float64 y)
        rw [hx, hy] at h
        congr
        exact UInt64.toBitVec_inj.mp h
  unfold sameVectors
  cases a.values <;> cases b.values <;> simp [canonicalVectorValues, h32, h64]

mutual

/-- **Two values are the same exactly when their canonical forms are equal.** -/
theorem sameValue_iff : ∀ a b : Value, sameValue a b = true ↔ canonicalValue a = canonicalValue b
  | .list as, b => by
    cases b with
    | list bs => simp [sameValue, canonicalValue, sameValues_iff as bs]
    | _ => simp [sameValue, canonicalValue]
  | .map as, b => by
    cases b with
    | map bs => simp [sameValue, canonicalValue, sameMaps_iff as bs]
    | _ => simp [sameValue, canonicalValue]
  | .float a, b => by cases b <;> simp [sameValue, canonicalValue, sameFloat_iff]
  | .point a, b => by
    cases b with
    | point b =>
      have hitems := sameItems_iff (fun x y => sameFloat_iff (a := x) (b := y))
        a.coordinates b.coordinates
      simp [sameValue, canonicalValue, hitems, and_assoc]
    | _ => simp [sameValue, canonicalValue]
  | .vector a, b => by
    cases b with
    | vector b =>
      simp [sameValue, canonicalValue, sameVectors_iff]
    | _ => simp [sameValue, canonicalValue]
  | .null, b => by cases b <;> simp [sameValue, canonicalValue]
  | .boolean _, b => by cases b <;> simp [sameValue, canonicalValue]
  | .integer _, b => by cases b <;> simp [sameValue, canonicalValue]
  | .string _, b => by cases b <;> simp [sameValue, canonicalValue]
  | .node, b => by cases b <;> simp [sameValue, canonicalValue]
  | .relationship, b => by cases b <;> simp [sameValue, canonicalValue]
  | .path, b => by cases b <;> simp [sameValue, canonicalValue]
  | .date _, b => by cases b <;> simp [sameValue, canonicalValue]
  | .localTime _, b => by cases b <;> simp [sameValue, canonicalValue]
  | .time _, b => by cases b <;> simp [sameValue, canonicalValue]
  | .localDateTime _, b => by cases b <;> simp [sameValue, canonicalValue]
  | .zonedDateTime _, b => by cases b <;> simp [sameValue, canonicalValue]
  | .duration _, b => by cases b <;> simp [sameValue, canonicalValue]
  | .uuid _, b => by cases b <;> simp [sameValue, canonicalValue]

theorem sameValues_iff : ∀ as bs : List Value,
    sameValues as bs = true ↔ canonicalValues as = canonicalValues bs
  | [], [] => by simp [sameValues]
  | [], b :: bs => by simp [sameValues, canonicalValues]
  | a :: as, [] => by simp [sameValues, canonicalValues]
  | a :: as, b :: bs => by
    simp [sameValues, canonicalValues, sameValue_iff a b, sameValues_iff as bs]

theorem sameMaps_iff : ∀ as bs : List (Text × Value),
    sameMaps as bs = true ↔ canonicalEntries as = canonicalEntries bs
  | [], [] => by simp [sameMaps]
  | [], (k, b) :: bs => by simp [sameMaps, canonicalEntries]
  | (k, a) :: as, [] => by simp [sameMaps, canonicalEntries]
  | (k, a) :: as, (l, b) :: bs => by
    simp [sameMaps, canonicalEntries, sameValue_iff a b, sameMaps_iff as bs, and_assoc]

end

/-- **So are optional values.** -/
theorem sameOptionalValue_iff {a b : Option Value} :
    sameOptionalValue a b = true ↔ a.map canonicalValue = b.map canonicalValue := by
  cases a <;> cases b <;> simp [sameOptionalValue, sameValue_iff]

end Lithograph.Version
