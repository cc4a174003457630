/-
  File:      Lithograph/Version/SlotEquality.lean
  Subject:   The equality a merge decides slots by, and the bytes the storage keeps
             (`query/version/canonical.rs`, `storage/value.rs`, `storage/layer.rs`,
             `storage/schema_state.rs`).

  The comparison takes two values apart family by family; commits and layers compare bytes.

  * `slotEquality`: values are the same exactly when their bytes are, but for definitions that spell
    one value in two ways.
-/
import Lithograph.Cypher.JsonText
import Lithograph.Cypher.ReadBack
import Lithograph.Cypher.TemporalIdentity
import Lithograph.Storage.LayerIdentity
import Lithograph.Storage.SchemaBlob
import Lithograph.Version.LogicalSlots

namespace Lithograph.Version

open Std Library Storage Cypher Query

/-! ## 1. The property of a value -/

/-- What a value that is no list is stored as. -/
inductive HoldsScalar : Value → PropertyValue → Prop
  | boolean (value : Bool) : HoldsScalar (.boolean value) (.boolean value)
  | integer (value : Int) : HoldsScalar (.integer value) (.integer value)
  | float (value : F64) : HoldsScalar (.float value) (.float value)
  | string (value : Text) : HoldsScalar (.string value) (.string value)
  | date (value : DateValue) : HoldsScalar (.date value) (.date value.days)
  | localTime (value : LocalTimeValue) :
      HoldsScalar (.localTime value) (.localTime value.nanoseconds)
  | time (value : TimeValue) :
      HoldsScalar (.time value) (.time value.localNanoseconds value.offsetSeconds)
  | localDateTime (value : LocalDateTimeValue) :
      HoldsScalar (.localDateTime value) (.localDateTime value.days value.nanoseconds)
  | zonedDateTime (value : Cypher.ZonedDateTimeValue)
      (hlow : -(2 ^ 63) ≤ value.instantNanoseconds / 1000000000)
      (hhigh : value.instantNanoseconds / 1000000000 ≤ 2 ^ 63 - 1) :
      HoldsScalar (.zonedDateTime value) (.zonedDateTime ⟨value.instantNanoseconds / 1000000000,
        (value.instantNanoseconds % 1000000000).toNat, value.zone⟩)
  | duration (value : DurationValue) : HoldsScalar (.duration value)
      (.duration value.months value.days value.seconds value.nanoseconds)
  | point (value : Cypher.PointValue) :
      HoldsScalar (.point value) (.point ⟨value.srid, value.coordinates⟩)
  | vector (value : CypherVector) : HoldsScalar (.vector value) (.vector (storageVector value))
  | uuid (value : UuidValue) : HoldsScalar (.uuid value) (.uuid value.bytes)

variable {value a b : Value} {stored p q : PropertyValue} {crs : Text} {coordinates : List F64}
  {point : Cypher.PointValue}

theorem stored_cases (h : propertyFromValue value = .ok (some stored)) : HoldsScalar value stored ∨
      ∃ values elements, value = .list values ∧ stored = .list elements ∧
        propertyList values = .ok elements := by
  unfold propertyFromValue at h
  cases value with
  | null => cases h
  | map _ => cases h
  | node => cases h
  | relationship => cases h
  | path => cases h
  | list values =>
    obtain ⟨elements, helements, h⟩ := bind_eq_ok.mp h
    exact .inr ⟨values, elements, rfl, checkedProperty_some h, helements⟩
  | zonedDateTime value =>
    obtain ⟨parts, hparts, h⟩ := bind_eq_ok.mp h
    rw [ofValue_ok] at hparts
    unfold ZonedDateTimeValue.storageComponents at hparts
    obtain ⟨_, hrange, hparts⟩ := bind_eq_ok.mp hparts
    cases hparts
    rw [checkedProperty_some h]
    simp only [rejectWhen_ok, Bool.or_eq_false_iff, decide_eq_false_iff_not, Int.not_lt] at hrange
    exact .inl (.zonedDateTime value hrange.1 hrange.2)
  | boolean value => exact checkedProperty_some h ▸ .inl (.boolean value)
  | integer value => exact checkedProperty_some h ▸ .inl (.integer value)
  | float value => exact checkedProperty_some h ▸ .inl (.float value)
  | string value => exact checkedProperty_some h ▸ .inl (.string value)
  | date value => exact checkedProperty_some h ▸ .inl (.date value)
  | localTime value => exact checkedProperty_some h ▸ .inl (.localTime value)
  | time value => exact checkedProperty_some h ▸ .inl (.time value)
  | localDateTime value => exact checkedProperty_some h ▸ .inl (.localDateTime value)
  | duration value => exact checkedProperty_some h ▸ .inl (.duration value)
  | point value => exact checkedProperty_some h ▸ .inl (.point value)
  | vector value => exact checkedProperty_some h ▸ .inl (.vector value)
  | uuid value => exact checkedProperty_some h ▸ .inl (.uuid value)

/-! ## 2. Canonical forms -/

theorem canonicalFloat_eq (x : F64) : canonicalFloat x = x.canonical := by
  unfold canonicalFloat F64.canonical canonicalF64Bits
  cases x.isNan with
  | true => rfl
  | false =>
    simp

theorem canonicalFloat_finite {x : F64} (h : isFinite x = true) : canonicalFloat x = x := by
  unfold canonicalFloat
  rw [isNan_of_finite h, if_neg Bool.false_ne_true]

theorem canonicalizeChunks_pack {width : Nat} {canonical : Nat → Nat} :
    ∀ values : List (BitVec (8 * width)), (∀ v ∈ values, canonical v.toNat = v.toNat) →
      canonicalizeChunks width canonical values.length (packCoordinates width values) =
        packCoordinates width values
  | [], _ => rfl
  | value :: rest, h => by
    have hpack : packCoordinates width (value :: rest) =
        leBytes width value.toNat ++ packCoordinates width rest := rfl
    have hlength := Cypher.length_leBytes width value.toNat
    have hback : leNat (leBytes width value.toNat) = value.toNat := by
      rw [Cypher.leNat_leBytes, show (256 : Nat) = 2 ^ 8 from rfl, ← Nat.pow_mul,
        Nat.mod_eq_of_lt value.isLt]
    rw [hpack, List.length_cons, canonicalizeChunks, List.take_left' hlength,
      List.drop_left' hlength, hback, h value (.head _),
      canonicalizeChunks_pack rest fun v hv => h v (.tail _ hv)]

theorem length_packed (values : VectorValues) :
    values.packed.length = values.len * values.coordinateType.width := by
  cases values <;> exact length_packCoordinates _ _

theorem canonicalFloat32_finite {x : BitVec 32} (h : x.toNat % 2 ^ 31 < 0x7f800000) :
    canonicalFloat32 x = x ∧ canonicalF32Bits x.toNat = x.toNat := by
  have hnan : ¬ 0x7f800000 < x.toNat % 2 ^ 31 := Nat.not_lt.mpr (Nat.le_of_lt h)
  unfold canonicalFloat32 isNan32 canonicalF32Bits
  rw [if_neg hnan, if_neg (by simpa using hnan)]
  exact ⟨rfl, rfl⟩

theorem canonicalFloat64_finite {x : BitVec 64} (h : x.toNat % 2 ^ 63 < 0x7ff0000000000000) :
    (canonicalFloat (float64 x)).bits.toBitVec = x ∧
      canonicalF64Bits ⟨UInt64.ofNat x.toNat⟩ = x.toNat := by
  have hsame : (⟨UInt64.ofNat x.toNat⟩ : F64) = float64 x := by
    unfold float64
    congr 1
    exact UInt64.toNat_inj.mp (by simp)
  have hmagnitude : magnitude (float64 x) = x.toNat % 2 ^ 63 := by
    unfold magnitude float64
    exact Nat.and_two_pow_sub_one_eq_mod x.toNat 63
  have hnan : (float64 x).isNan = false := isNan_of_finite (by
    unfold isFinite
    rw [hmagnitude, decide_eq_true_eq]
    exact h)
  rw [hsame]
  unfold canonicalFloat canonicalF64Bits
  rw [hnan, if_neg Bool.false_ne_true, if_neg Bool.false_ne_true]
  exact ⟨rfl, rfl⟩

/-- **A constructed vector is canonical**, as a value and as a property. -/
theorem vector_canonical {vector : CypherVector}
    (h : CypherVector.new vector.coordinateType vector.values = .ok vector) :
    canonicalVectorValues vector.values = vector.values ∧
      (storageVector vector).canonical = storageVector vector := by
  obtain ⟨_, hlen, hfinite⟩ := CypherVector.new_ok h
  have hwidth : vector.values.coordinateType.width ≤ 8 := by
    cases vector.values.coordinateType <;> decide
  have hsize : ¬ 2 ^ 64 ≤ vector.values.len * vector.values.coordinateType.width := by
    have := Nat.mul_le_mul hlen hwidth
    omega
  have hkept : canonicalVectorValues vector.values = vector.values ∧
      canonicalizeVectorBytes (storageVector vector) = .ok vector.values.packed := by
    have hlength := length_packed vector.values
    unfold canonicalizeVectorBytes storageVector
    rw [if_neg hsize, if_neg (fun hne => hne hlength)]
    unfold VectorValues.finite at hfinite
    cases hvalues : vector.values with
    | f32 values =>
      rw [hvalues] at hfinite
      simp only [List.all_eq_true, decide_eq_true_eq] at hfinite
      constructor
      · refine congrArg VectorValues.f32 ?_
        conv_rhs => rw [← List.map_id values]
        exact List.map_congr_left fun v hv => (canonicalFloat32_finite (hfinite v hv)).1
      · exact congrArg Except.ok (@canonicalizeChunks_pack 4 _ values fun v hv =>
          (canonicalFloat32_finite (hfinite v hv)).2)
    | f64 values =>
      rw [hvalues] at hfinite
      simp only [List.all_eq_true, decide_eq_true_eq] at hfinite
      constructor
      · refine congrArg VectorValues.f64 ?_
        conv_rhs => rw [← List.map_id values]
        exact List.map_congr_left fun v hv => (canonicalFloat64_finite (hfinite v hv)).1
      · exact congrArg Except.ok (@canonicalizeChunks_pack 8 _ values fun v hv =>
          (canonicalFloat64_finite (hfinite v hv)).2)
    | i8 values => exact ⟨rfl, rfl⟩
    | i16 values => exact ⟨rfl, rfl⟩
    | i32 values => exact ⟨rfl, rfl⟩
    | i64 values => exact ⟨rfl, rfl⟩
  exact ⟨hkept.1, VectorValue.canonical_eq hkept.2⟩

section Values

variable {zones : ZoneDatabase} {wrapLongitude : F64 → F64}

theorem point_system (h : Cypher.PointValue.new wrapLongitude crs coordinates = .ok point) :
    (point.srid = 4326 ∧ point.crs = "wgs-84".toList) ∨
      (point.srid = 4979 ∧ point.crs = "wgs-84-3d".toList) ∨
      (point.srid = 7203 ∧ point.crs = "cartesian".toList) ∨
      (point.srid = 9157 ∧ point.crs = "cartesian-3d".toList) := by
  obtain ⟨_, _, hsystem, _⟩ := PointValue.new_ok h
  exact (referenceSystem_ok hsystem).2

theorem point_eq {crs' : Text} {coordinates' : List F64} {point' : Cypher.PointValue}
    (h : Cypher.PointValue.new wrapLongitude crs coordinates = .ok point)
    (h' : Cypher.PointValue.new wrapLongitude crs' coordinates' = .ok point')
    (hsrid : point.srid = point'.srid) (hcoordinates : point.coordinates = point'.coordinates) :
    point = point' := by
  have hcrs : point.crs = point'.crs := by
    rcases point_system h with ⟨hs, hc⟩ | ⟨hs, hc⟩ | ⟨hs, hc⟩ | ⟨hs, hc⟩ <;>
      rcases point_system h' with ⟨hs', hc'⟩ | ⟨hs', hc'⟩ | ⟨hs', hc'⟩ | ⟨hs', hc'⟩ <;>
        first
        | (exfalso; omega)
        | rw [hc, hc']
  cases point
  simp only at hcrs hsrid hcoordinates
  rw [hcrs, hsrid, hcoordinates]

theorem point_finite (hwrap : WrapsLongitude wrapLongitude)
    (h : Cypher.PointValue.new wrapLongitude crs coordinates = .ok point) :
    ∀ x ∈ point.coordinates, isFinite x = true := by
  obtain ⟨_, _, _, _, hfinite, _, hcoordinates⟩ := PointValue.new_ok h
  intro x hx
  rw [hcoordinates] at hx
  unfold wrapFirst at hx
  split at hx
  · cases hx
  · split at hx
    · rcases List.mem_cons.mp hx with rfl | hx
      · exact (hwrap _ (hfinite _ (.head _))).1
      · exact hfinite x (.tail _ hx)
    · exact hfinite x hx

/-- **Only a float is not canonical yet.** -/
theorem scalar_canonical (hwrap : WrapsLongitude wrapLongitude) (h : HoldsScalar value stored)
    (hconstructed : value.Constructed zones wrapLongitude) :
    HoldsScalar (canonicalValue value) stored.canonical ∧
      (canonicalValue value).Constructed zones wrapLongitude := by
  cases h with
  | float value =>
    unfold canonicalValue PropertyValue.canonical
    rw [canonicalFloat_eq]
    exact ⟨.float _, trivial⟩
  | point point =>
    obtain ⟨crs, coordinates, hnew⟩ := hconstructed
    have hfinite := point_finite hwrap hnew
    have hvalue : point.coordinates.map canonicalFloat = point.coordinates := by
      conv_rhs => rw [← List.map_id point.coordinates]
      exact List.map_congr_left fun x hx => canonicalFloat_finite (hfinite x hx)
    have hstored : point.coordinates.map F64.canonical = point.coordinates := by
      rw [← hvalue, List.map_map]
      exact List.map_congr_left fun x hx => by
        rw [Function.comp_apply, canonicalFloat_finite (hfinite x hx), ← canonicalFloat_eq,
          canonicalFloat_finite (hfinite x hx)]
    unfold canonicalValue PropertyValue.canonical
    rw [hvalue]
    rw [hstored]
    exact ⟨.point point, crs, coordinates, hnew⟩
  | vector vector =>
    unfold Value.Constructed at hconstructed
    obtain ⟨hvalues, hstored⟩ := vector_canonical hconstructed
    unfold canonicalValue PropertyValue.canonical
    rw [hvalues, hstored]
    exact ⟨.vector vector, hconstructed⟩
  | zonedDateTime value hlow hhigh => exact ⟨.zonedDateTime value hlow hhigh, hconstructed⟩
  | boolean value => exact ⟨.boolean value, trivial⟩
  | integer value => exact ⟨.integer value, trivial⟩
  | string value => exact ⟨.string value, trivial⟩
  | date value => exact ⟨.date value, hconstructed⟩
  | localTime value => exact ⟨.localTime value, hconstructed⟩
  | time value => exact ⟨.time value, hconstructed⟩
  | localDateTime value => exact ⟨.localDateTime value, hconstructed⟩
  | duration value => exact ⟨.duration value, trivial⟩
  | uuid value => exact ⟨.uuid value, hconstructed⟩

theorem holdsScalar_unique {stored' : PropertyValue} (h : HoldsScalar value stored)
    (h' : HoldsScalar value stored') : stored = stored' := by
  cases h <;> cases h' <;> rfl

/-- **A property has one value.** -/
theorem holdsScalar_inj {value' : Value} {stored' : PropertyValue} (h : HoldsScalar value stored)
    (h' : HoldsScalar value' stored') (heq : stored = stored')
    (hc : value.Constructed zones wrapLongitude) (hc' : value'.Constructed zones wrapLongitude) :
    value = value' := by
  cases h with
  | boolean _ => cases h' with
    | boolean _ =>
      cases heq
      rfl
    | _ => cases heq
  | integer _ => cases h' with
    | integer _ =>
      cases heq
      rfl
    | _ => cases heq
  | float _ => cases h' with
    | float _ =>
      cases heq
      rfl
    | _ => cases heq
  | string _ => cases h' with
    | string _ =>
      cases heq
      rfl
    | _ => cases heq
  | date _ => cases h' with
    | date _ =>
      obtain ⟨_, hparse⟩ := hc
      obtain ⟨_, hparse'⟩ := hc'
      exact congrArg Value.date (DateValue.eq_of_days hparse hparse' (PropertyValue.date.inj heq))
    | _ => cases heq
  | localTime _ => cases h' with
    | localTime _ =>
      obtain ⟨_, hparse⟩ := hc
      obtain ⟨_, hparse'⟩ := hc'
      exact congrArg Value.localTime
        (LocalTimeValue.eq_of_nanoseconds hparse hparse' (PropertyValue.localTime.inj heq))
    | _ => cases heq
  | time _ => cases h' with
    | time _ =>
      obtain ⟨_, hparse⟩ := hc
      obtain ⟨_, hparse'⟩ := hc'
      obtain ⟨hnanos, hoffset⟩ := PropertyValue.time.inj heq
      exact congrArg Value.time (TimeValue.eq_of_numbers hparse hparse' hnanos hoffset)
    | _ => cases heq
  | localDateTime _ => cases h' with
    | localDateTime _ =>
      obtain ⟨_, hparse⟩ := hc
      obtain ⟨_, hparse'⟩ := hc'
      obtain ⟨hdays, hnanos⟩ := PropertyValue.localDateTime.inj heq
      exact congrArg Value.localDateTime
        (LocalDateTimeValue.eq_of_numbers hparse hparse' hdays hnanos)
    | _ => cases heq
  | zonedDateTime value => cases h' with
    | zonedDateTime value' =>
      obtain ⟨_, hparse⟩ := hc
      obtain ⟨_, hparse'⟩ := hc'
      obtain ⟨hseconds, hnanos, hzone⟩ :=
        Storage.ZonedDateTimeValue.mk.inj (PropertyValue.zonedDateTime.inj heq)
      rw [← hzone] at hparse'
      have hinstant : value.instantNanoseconds = value'.instantNanoseconds := by omega
      exact congrArg Value.zonedDateTime (ZonedDateTimeValue.eq_of_instant hparse hparse' hinstant)
    | _ => cases heq
  | duration value => cases h' with
    | duration value' =>
      cases value
      cases heq
      rfl
    | _ => cases heq
  | point point => cases h' with
    | point point' =>
      obtain ⟨_, _, hnew⟩ := hc
      obtain ⟨_, _, hnew'⟩ := hc'
      obtain ⟨hsrid, hcoordinates⟩ := Storage.PointValue.mk.inj (PropertyValue.point.inj heq)
      exact congrArg Value.point (point_eq hnew hnew' (Int.ofNat_inj.mp hsrid) hcoordinates)
    | _ => cases heq
  | vector vector => cases h' with
    | vector vector' =>
      unfold Value.Constructed at hc hc'
      have hvalues : vector.values = vector'.values := by
        rw [← unpackedValues_storageVector vector, ← unpackedValues_storageVector vector',
          PropertyValue.vector.inj heq]
      have htype : vector.coordinateType = vector'.coordinateType := by
        rw [← (CypherVector.new_ok hc).1, ← (CypherVector.new_ok hc').1, hvalues]
      cases vector
      cases hvalues
      cases htype
      rfl
    | _ => cases heq
  | uuid value => cases h' with
    | uuid value' =>
      cases value
      cases heq
      rfl
    | _ => cases heq

/-! ## 3. Two values and their properties -/

theorem scalar_iff (hwrap : WrapsLongitude wrapLongitude) (ha : HoldsScalar a p)
    (hb : HoldsScalar b q) (hca : a.Constructed zones wrapLongitude)
    (hcb : b.Constructed zones wrapLongitude) :
    canonicalValue a = canonicalValue b ↔ p.canonical = q.canonical := by
  obtain ⟨ha, hca⟩ := scalar_canonical hwrap ha hca
  obtain ⟨hb, hcb⟩ := scalar_canonical hwrap hb hcb
  constructor
  · intro heq
    rw [heq] at ha
    exact holdsScalar_unique ha hb
  · intro heq
    exact holdsScalar_inj ha hb heq hca hcb

theorem holdsScalar_ne_list (h : HoldsScalar a p) :
    (∀ values, a ≠ .list values) ∧ ∀ elements, p ≠ .list elements := by
  cases h <;> exact ⟨fun _ => (nomatch ·), fun _ => (nomatch ·)⟩

theorem scalar_ne_list (hwrap : WrapsLongitude wrapLongitude) (ha : HoldsScalar a p)
    (hca : a.Constructed zones wrapLongitude) (values : List Value)
    (elements : List PropertyValue) : canonicalValue a ≠ canonicalValue (.list values) ∧
      p.canonical ≠ (PropertyValue.list elements).canonical := by
  obtain ⟨ha, _⟩ := scalar_canonical hwrap ha hca
  constructor
  · intro heq
    rw [heq, canonicalValue] at ha
    exact (holdsScalar_ne_list ha).1 _ rfl
  · intro heq
    rw [heq, PropertyValue.canonical] at ha
    exact (holdsScalar_ne_list ha).2 _ rfl

theorem storedScalar_iff (hwrap : WrapsLongitude wrapLongitude)
    (hscalar : ∀ values, a ≠ .list values) (hca : a.Constructed zones wrapLongitude)
    (hcb : b.Constructed zones wrapLongitude) (ha : propertyFromValue a = .ok (some p))
    (hb : propertyFromValue b = .ok (some q)) :
    canonicalValue a = canonicalValue b ↔ p.canonical = q.canonical := by
  rcases stored_cases ha with ha | ⟨values, _, heq, _⟩
  · rcases stored_cases hb with hb | ⟨values, elements, rfl, rfl, _⟩
    · exact scalar_iff hwrap ha hb hca hcb
    · obtain ⟨hvalue, hstored⟩ := scalar_ne_list hwrap ha hca values elements
      exact iff_of_false hvalue hstored
  · exact absurd heq (hscalar values)

theorem propertyList_cons {rest : List Value} {elements : List PropertyValue}
    (h : propertyList (value :: rest) = .ok elements) : ∃ first others,
      elements = first :: others ∧ propertyFromValue value = .ok (some first) ∧
        propertyList rest = .ok others := by
  unfold propertyList at h
  obtain ⟨kept, hkept, h⟩ := bind_eq_ok.mp h
  obtain ⟨first, hfirst, h⟩ := bind_eq_ok.mp h
  obtain ⟨others, hothers, h⟩ := bind_eq_ok.mp h
  cases h
  cases kept with
  | none => cases hfirst
  | some kept =>
    cases hfirst
    exact ⟨first, others, rfl, hkept, hothers⟩

mutual

theorem stored_iff (hwrap : WrapsLongitude wrapLongitude) : ∀ (a : Value) {b : Value}
    {p q : PropertyValue}, a.Constructed zones wrapLongitude → b.Constructed zones wrapLongitude →
      propertyFromValue a = .ok (some p) → propertyFromValue b = .ok (some q) →
        (canonicalValue a = canonicalValue b ↔ p.canonical = q.canonical)
  | .list as, b, p, q, hca, hcb, ha, hb => by
    rcases stored_cases ha with ha | ⟨values, elements, heq, rfl, ha⟩
    · cases ha
    cases heq
    rcases stored_cases hb with hscalar | ⟨bs, elements', rfl, rfl, hitems⟩
    · obtain ⟨hvalue, hstored⟩ := scalar_ne_list hwrap hscalar hcb as elements
      exact iff_of_false (Ne.symm hvalue) (Ne.symm hstored)
    · unfold Value.Constructed at hca hcb
      unfold canonicalValue PropertyValue.canonical
      rw [Value.list.injEq, PropertyValue.list.injEq]
      exact storedList_iff hwrap as hca hcb ha hitems
  | .null, _, _, _, hca, hcb, ha, hb | .boolean _, _, _, _, hca, hcb, ha, hb
  | .integer _, _, _, _, hca, hcb, ha, hb | .float _, _, _, _, hca, hcb, ha, hb
  | .string _, _, _, _, hca, hcb, ha, hb | .map _, _, _, _, hca, hcb, ha, hb
  | .node, _, _, _, hca, hcb, ha, hb | .relationship, _, _, _, hca, hcb, ha, hb
  | .path, _, _, _, hca, hcb, ha, hb | .date _, _, _, _, hca, hcb, ha, hb
  | .localTime _, _, _, _, hca, hcb, ha, hb | .time _, _, _, _, hca, hcb, ha, hb
  | .localDateTime _, _, _, _, hca, hcb, ha, hb | .zonedDateTime _, _, _, _, hca, hcb, ha, hb
  | .duration _, _, _, _, hca, hcb, ha, hb | .point _, _, _, _, hca, hcb, ha, hb
  | .vector _, _, _, _, hca, hcb, ha, hb | .uuid _, _, _, _, hca, hcb, ha, hb =>
    storedScalar_iff hwrap (fun _ heq => by cases heq) hca hcb ha hb

theorem storedList_iff (hwrap : WrapsLongitude wrapLongitude) : ∀ (as : List Value)
    {bs : List Value} {ps qs : List PropertyValue}, AllConstructed zones wrapLongitude as →
      AllConstructed zones wrapLongitude bs → propertyList as = .ok ps → propertyList bs = .ok qs →
        (canonicalValues as = canonicalValues bs ↔ canonicalList ps = canonicalList qs)
  | [], [], _, _, _, _, ha, hb => by
    cases ha
    cases hb
    exact ⟨fun _ => rfl, fun _ => rfl⟩
  | [], b :: bs, _, _, _, _, ha, hb => by
    cases ha
    obtain ⟨first, others, rfl, _⟩ := propertyList_cons hb
    simp [canonicalValues, canonicalList]
  | a :: as, [], _, _, _, _, ha, hb => by
    cases hb
    obtain ⟨first, others, rfl, _⟩ := propertyList_cons ha
    simp [canonicalValues, canonicalList]
  | a :: as, b :: bs, _, _, hca, hcb, ha, hb => by
    unfold AllConstructed at hca hcb
    obtain ⟨first, others, rfl, hfirst, hothers⟩ := propertyList_cons ha
    obtain ⟨first', others', rfl, hfirst', hothers'⟩ := propertyList_cons hb
    unfold canonicalValues canonicalList
    rw [List.cons.injEq, List.cons.injEq, stored_iff hwrap a hca.1 hcb.1 hfirst hfirst',
      storedList_iff hwrap as hca.2 hcb.2 hothers hothers']

end

mutual

/-- The integers of the value have 64 bits. -/
def Value.Fits : Value → Prop
  | .integer value => IsI64 value
  | .duration value =>
    IsI64 value.months ∧ IsI64 value.days ∧ IsI64 value.seconds ∧ IsI64 value.nanoseconds
  | .list values => AllFit values
  | _ => True

def AllFit : List Value → Prop
  | [] => True
  | value :: rest => Value.Fits value ∧ AllFit rest

end

theorem date_inRange {text : Text} {date : DateValue} (h : DateValue.parse text = .ok date) :
    IsI64 date.days := by
  obtain ⟨year, month, day, hcivil, hlow, hhigh, _, rfl⟩ := date_parse_ok h
  obtain ⟨hbelow, habove⟩ := daysFromCivil_bounds hcivil hlow hhigh
  unfold IsI64
  dsimp only
  omega

theorem localTime_inRange {text : Text} {time : LocalTimeValue}
    (h : LocalTimeValue.parse text = .ok time) : time.nanoseconds < 2 ^ 64 := by
  obtain ⟨hlt, _⟩ := localTime_parse_ok h
  unfold dayNanoseconds at hlt
  omega

theorem holdsScalar_inRange (h : HoldsScalar a p) (hc : a.Constructed zones wrapLongitude)
    (hfits : Value.Fits a) : p.InRange := by
  cases h with
  | integer value => exact hfits
  | duration value => exact hfits
  | date value =>
    obtain ⟨_, hparse⟩ := hc
    exact date_inRange hparse
  | localTime value =>
    obtain ⟨_, hparse⟩ := hc
    exact localTime_inRange hparse
  | time value =>
    obtain ⟨_, hparse⟩ := hc
    obtain ⟨hlt, hoffset, _⟩ := time_parse_ok hparse
    unfold dayNanoseconds at hlt
    unfold ValidOffset at hoffset
    unfold PropertyValue.InRange IsI32
    omega
  | localDateTime value =>
    obtain ⟨_, hparse⟩ := hc
    unfold LocalDateTimeValue.parse at hparse
    obtain ⟨_, _, hparse⟩ := bind_eq_ok.mp hparse
    obtain ⟨date, hdate, hparse⟩ := bind_eq_ok.mp hparse
    obtain ⟨time, htime, hparse⟩ := bind_eq_ok.mp hparse
    cases hparse
    exact ⟨date_inRange hdate, localTime_inRange htime⟩
  | zonedDateTime value hlow hhigh =>
    unfold PropertyValue.InRange IsI64
    dsimp only
    omega
  | point value =>
    obtain ⟨_, _, hnew⟩ := hc
    have hsystem := point_system hnew
    unfold PropertyValue.InRange IsI64
    dsimp only
    omega
  | vector value =>
    unfold Value.Constructed at hc
    obtain ⟨_, hlen, _⟩ := CypherVector.new_ok hc
    unfold PropertyValue.InRange storageVector
    dsimp only
    omega
  | uuid value => exact hc
  | boolean value => trivial
  | float value => trivial
  | string value => trivial

mutual

/-- **The numbers of a property are in range.** -/
theorem stored_inRange : ∀ (a : Value) {p : PropertyValue}, a.Constructed zones wrapLongitude →
    Value.Fits a → propertyFromValue a = .ok (some p) → p.InRange
  | .list as, p, hc, hfits, ha => by
    rcases stored_cases ha with hscalar | ⟨values, elements, heq, rfl, hitems⟩
    · exact absurd rfl ((holdsScalar_ne_list hscalar).1 as)
    cases heq
    unfold Value.Constructed at hc
    unfold Value.Fits at hfits
    exact storedList_inRange as hc hfits hitems
  | .null, _, hc, hfits, ha | .boolean _, _, hc, hfits, ha | .integer _, _, hc, hfits, ha
  | .float _, _, hc, hfits, ha | .string _, _, hc, hfits, ha | .map _, _, hc, hfits, ha
  | .node, _, hc, hfits, ha | .relationship, _, hc, hfits, ha | .path, _, hc, hfits, ha
  | .date _, _, hc, hfits, ha | .localTime _, _, hc, hfits, ha | .time _, _, hc, hfits, ha
  | .localDateTime _, _, hc, hfits, ha | .zonedDateTime _, _, hc, hfits, ha
  | .duration _, _, hc, hfits, ha | .point _, _, hc, hfits, ha | .vector _, _, hc, hfits, ha
  | .uuid _, _, hc, hfits, ha => by
    rcases stored_cases ha with hscalar | ⟨_, _, heq, _⟩
    · exact holdsScalar_inRange hscalar hc hfits
    · cases heq

theorem storedList_inRange : ∀ (as : List Value) {ps : List PropertyValue},
    AllConstructed zones wrapLongitude as → AllFit as → propertyList as = .ok ps → AllInRange ps
  | [], _, _, _, ha => by
    cases ha
    trivial
  | a :: as, _, hc, hfits, ha => by
    unfold AllConstructed at hc
    unfold AllFit at hfits
    obtain ⟨first, others, rfl, hfirst, hothers⟩ := propertyList_cons ha
    exact ⟨stored_inRange a hc.1 hfits.1 hfirst, storedList_inRange as hc.2 hfits.2 hothers⟩

end

end Values

/-- **Properties have one canonical form exactly when they have the same bytes.** -/
theorem canonical_iff_bytes (hp : p.InRange) (hq : q.InRange) {x y : Bytes}
    (hx : p.canonicalBytes = .ok x) (hy : q.canonicalBytes = .ok y) :
    p.canonical = q.canonical ↔ x = y := by
  constructor
  · intro heq
    rw [← canonicalBytes_canonical, heq, canonicalBytes_canonical, hy] at hx
    exact (Except.ok.inj hx).symm
  · intro heq
    have hread := fromCanonicalBytes_canonicalBytes p hp hx
    rw [heq, fromCanonicalBytes_canonicalBytes q hq hy] at hread
    exact (Except.ok.inj hread).symm

/-! ## 4. Definitions -/

section Definitions

variable {shapes : JsonShapes}

/-- A tagged shape is the shape of the canonical form: every NaN is written alike. -/
def ShapesCanonical (shapes : JsonShapes) : Prop :=
  ∀ value, shapes.encodeTagged (canonicalValue value) = shapes.encodeTagged value

theorem encodeFloat_canonical (x : F64) :
    encodeJson shapes (.float (canonicalFloat x)) = encodeJson shapes (.float x) := by
  by_cases hnan : x.isNan = true
  · have hfinite : isFinite x = false := by
      cases hx : isFinite x with
      | false => rfl
      | true =>
        rw [isNan_of_finite hx] at hnan
        cases hnan
    have hplain : canonicalFloat x = ⟨0x7ff8000000000000⟩ := if_pos hnan
    have hplainNan : F64.isNan ⟨0x7ff8000000000000⟩ = true := by decide
    have hplainFinite : isFinite ⟨0x7ff8000000000000⟩ = false := by decide
    rw [hplain, encodeJson, encodeJson, hfinite, hplainFinite]
    unfold encodeNonfinite
    rw [hnan, hplainNan]
    simp only [Bool.false_eq_true, if_false, if_true]
  · rw [show canonicalFloat x = x from if_neg hnan]

theorem lookup_canonicalEntries (key : Text) : ∀ entries : List (Text × Value),
    ((canonicalEntries entries).lookup key).isSome = (entries.lookup key).isSome
  | [] => rfl
  | (k, value) :: rest => by
    unfold canonicalEntries
    rw [List.lookup_cons, List.lookup_cons]
    cases key == k
    · exact lookup_canonicalEntries key rest
    · rfl

mutual

theorem encodeJson_canonical (hshapes : ShapesCanonical shapes) : ∀ value : Value,
    encodeJson shapes (canonicalValue value) = encodeJson shapes value
  | .float x => encodeFloat_canonical x
  | .list values => by
    rw [canonicalValue, encodeJson, encodeJson, encodeItems_canonical hshapes values]
  | .map entries => by
    rw [canonicalValue, encodeJson, encodeJson, lookup_canonicalEntries,
      encodeEntries_canonical hshapes entries]
  | .point point => by
    have h := hshapes (.point point)
    rw [canonicalValue] at h ⊢
    rw [encodeJson, encodeJson, h] <;> simp
  | .vector vector => by
    have h := hshapes (.vector vector)
    rw [canonicalValue] at h ⊢
    rw [encodeJson, encodeJson, h] <;> simp
  | .null | .boolean _ | .integer _ | .string _ | .node | .relationship | .path | .date _
  | .localTime _ | .time _ | .localDateTime _ | .zonedDateTime _ | .duration _ | .uuid _ => rfl

theorem encodeItems_canonical (hshapes : ShapesCanonical shapes) : ∀ values : List Value,
    encodeItems shapes (canonicalValues values) = encodeItems shapes values
  | [] => rfl
  | value :: rest => by
    rw [canonicalValues, encodeItems, encodeItems, encodeJson_canonical hshapes value,
      encodeItems_canonical hshapes rest]

theorem encodeEntries_canonical (hshapes : ShapesCanonical shapes) :
    ∀ entries : List (Text × Value),
      encodeEntries shapes (canonicalEntries entries) = encodeEntries shapes entries
  | [] => rfl
  | (key, value) :: rest => by
    rw [canonicalEntries, encodeEntries, encodeEntries, encodeJson_canonical hshapes value,
      encodeEntries_canonical hshapes rest]

end

/-- The value of the slot of an object. -/
def objectValue (shapes : JsonShapes) : SchemaObject → QueryResult Value
  | .graphNode definition => serdeValue shapes definition
  | .graphRelationship definition => serdeValue shapes definition
  | .constraint definition => serdeValue shapes definition
  | .index definition => serdeValue shapes definition

theorem objectValue_ok {object : SchemaObject} (h : objectValue shapes object = .ok value) :
    decodeJson shapes object.definitionJson = .ok value := by
  cases object <;> exact ofValue_ok.mp h

/-- JSON as it is written once it has been read. -/
def rewritten (shapes : JsonShapes) (json : Json) : ValueResult Json := do
  let value ← decodeJson shapes json
  pure (encodeJson shapes value)

/-- JSON that is rewritten alike is one JSON. -/
def OneSpelling (shapes : JsonShapes) (json json' : Json) : Prop :=
  rewritten shapes json = rewritten shapes json' → json = json'

/-- A value that is written and read is the same one. -/
def ReadBack (shapes : JsonShapes) (value : Value) : Prop :=
  ∃ value', decodeJson shapes (encodeJson shapes value) = .ok value' ∧
    canonicalValue value' = canonicalValue value

theorem oneSpelling_of_survives {json json' : Json} (h : Survives shapes json)
    (h' : Survives shapes json') : OneSpelling shapes json json' := by
  have hkept : ∀ {json : Json}, Survives shapes json → rewritten shapes json = .ok json := by
    intro json hjson
    obtain ⟨value, hvalue, hencode⟩ := comes_back_iff.mpr hjson
    rw [rewritten, hvalue, ok_bind, hencode]
    rfl
  intro heq
  rw [hkept h, hkept h'] at heq
  exact Except.ok.inj heq

/-- **Definitions of one spelling are the same value exactly when they are the same JSON.** -/
theorem definition_iff (hshapes : ShapesCanonical shapes) {json json' : Json}
    (ha : decodeJson shapes json = .ok a) (hb : decodeJson shapes json' = .ok b) :
    (OneSpelling shapes json json' → (canonicalValue a = canonicalValue b ↔ json = json')) ∧
      (ReadBack shapes a → ReadBack shapes b →
        (canonicalValue a = canonicalValue b ↔ json = json') → OneSpelling shapes json json') := by
  have hsame : rewritten shapes json = rewritten shapes json' ↔
      encodeJson shapes a = encodeJson shapes b := by
    rw [rewritten, rewritten, ha, hb]
    exact ⟨fun heq => Except.ok.inj heq, fun heq => congrArg Except.ok heq⟩
  refine ⟨fun hone => ⟨fun heq => hone (hsame.mpr ?_), fun heq => ?_⟩, fun hback hback' hiff heq =>
    hiff.mp ?_⟩
  · rw [← encodeJson_canonical hshapes a, heq, encodeJson_canonical hshapes b]
  · rw [heq, hb] at ha
    cases ha
    rfl
  · obtain ⟨value, hvalue, hcanonical⟩ := hback
    obtain ⟨value', hvalue', hcanonical'⟩ := hback'
    rw [hsame.mp heq, hvalue'] at hvalue
    cases hvalue
    exact hcanonical.symm.trans hcanonical'

end Definitions

/-! ## 5. Slots -/

/-- What a slot is the slot of. The values of properties are compared whatever slot they are in. -/
inductive SlotSubject where
  | node (id : NodeId)
  | label (row : NodeId × LabelId)
  | relationship (id : RelationshipId)
  | property
  | definition (key : ObjectKind × Text)

/-- The value of a definition, whose JSON the library reads as it wrote it. -/
structure DefinitionSlot (c : Connection) (t : JsonText) (object : SchemaObject) (a : Value) :
    Prop where
  value : objectValue c.shapes object = .ok a
  read : t.read (t.write object.json) = some object.json

/-- The value of a slot, and the bytes the storage keeps for it. -/
inductive SlotValue (c : Connection) (t : JsonText) : SlotSubject → Value → Bytes → Prop
  | node {id : NodeId} {slot : Text} {a : Value} (h : nodeEntry id = .ok (slot, a)) :
      SlotValue c t (.node id) a (LayerBuilder.nodeRecord id .add)
  | label {row : NodeId × LabelId} {slot : Text} {a : Value}
      (h : labelEntry c row = .ok (slot, a)) :
      SlotValue c t (.label row) a (LayerBuilder.labelRecord row.1 row.2 .add)
  | relationship {r : RelationshipRecord} {slot : Text} {a : Value}
      (hids : IsId r.id ∧ IsId r.source ∧ IsId r.typeId ∧ IsId r.target)
      (h : relationshipEntry c (r.id, r) = .ok (slot, a)) :
      SlotValue c t (.relationship r.id) a (LayerBuilder.relationshipRecord ⟨.add, r⟩)
  | property {a : Value} {p : PropertyValue} {bytes : Bytes}
      (hconstructed : a.Constructed c.zones c.wrapLongitude) (hfits : Value.Fits a)
      (hstored : propertyFromValue a = .ok (some p)) (hbytes : p.canonicalBytes = .ok bytes) :
      SlotValue c t .property a bytes
  | definition {object : SchemaObject} {a : Value} (h : DefinitionSlot c t object a) :
      SlotValue c t (.definition object.key) a (t.write object.json)

section Slots

variable {c : Connection} {t : JsonText}

theorem idText_inj {a b : Int} (ha : IsId a) (hb : IsId b)
    (h : "n:".toList ++ integerText a = "n:".toList ++ integerText b) : a = b := by
  unfold IsId at ha hb
  exact integerText_inj (by omega) (by omega) (List.append_cancel_left h)

theorem type_of_name {d : Dictionary} {id id' : Int} {name : Text} (h : d.nameOf id = some name)
    (h' : d.nameOf id' = some name) : id = id' := by
  have hfind := Dictionary.find_iff.mpr (Dictionary.nameOf_iff.mp h)
  rw [Dictionary.find_iff.mpr (Dictionary.nameOf_iff.mp h')] at hfind
  exact (Option.some.inj hfind).symm

/-- **Relationships of one id are the same value exactly when they are the same record.** -/
theorem relationship_iff {r r' : RelationshipRecord} {slot slot' : Text} (hid : r.id = r'.id)
    (hr : IsId r.id ∧ IsId r.source ∧ IsId r.typeId ∧ IsId r.target)
    (hr' : IsId r'.id ∧ IsId r'.source ∧ IsId r'.typeId ∧ IsId r'.target)
    (ha : relationshipEntry c (r.id, r) = .ok (slot, a))
    (hb : relationshipEntry c (r'.id, r') = .ok (slot', b)) : canonicalValue a = canonicalValue b ↔
      LayerBuilder.relationshipRecord ⟨.add, r⟩ = LayerBuilder.relationshipRecord ⟨.add, r'⟩ := by
  have hrecord : LayerBuilder.relationshipRecord ⟨.add, r⟩ =
      LayerBuilder.relationshipRecord ⟨.add, r'⟩ ↔ r = r' := by
    constructor
    · intro h
      exact congrArg RelationshipDelta.record (LayerBuilder.relationshipRecord_inj hr hr' h)
    · intro h
      rw [h]
  rw [hrecord]
  unfold relationshipEntry relationshipValue at ha hb
  obtain ⟨_, ha, ha'⟩ := bind_eq_ok.mp ha
  obtain ⟨name, hname, ha⟩ := bind_eq_ok.mp ha
  obtain ⟨_, hb, hb'⟩ := bind_eq_ok.mp hb
  obtain ⟨name', hname', hb⟩ := bind_eq_ok.mp hb
  cases ha
  cases ha'
  cases hb
  cases hb'
  rw [orElse_ok] at hname hname'
  constructor
  · intro heq
    simp only [canonicalValue, canonicalEntries, Value.map.injEq, List.cons.injEq, Prod.mk.injEq,
      Value.string.injEq, true_and, and_true] at heq
    obtain ⟨hsource, htarget, htype⟩ := heq
    obtain ⟨id, source, typeId, target⟩ := r
    dsimp only at *
    rw [← htype] at hname'
    rw [hid, idText_inj hr.2.1 hr'.2.1 hsource, idText_inj hr.2.2.2 hr'.2.2.2 htarget,
      type_of_name hname hname']
  · intro heq
    subst heq
    rw [hname] at hname'
    cases hname'
    rfl

theorem definition_bytes {object object' : SchemaObject} (hkey : object.key = object'.key)
    (ha : DefinitionSlot c t object a) (hb : DefinitionSlot c t object' b) :
    object.definitionJson = object'.definitionJson ↔
      t.write object.json = t.write object'.json := by
  have hkind : object.tag = object'.tag := by
    have hkinds := congrArg Prod.fst hkey
    cases object <;> cases object' <;> first | rfl | cases hkinds
  constructor
  · intro heq
    unfold SchemaObject.json
    rw [heq, hkind]
  · intro heq
    have hread := ha.read
    rw [heq, hb.read] at hread
    have hjson := Option.some.inj hread
    unfold SchemaObject.json at hjson
    simp only [Json.object.injEq, List.cons.injEq, Prod.mk.injEq] at hjson
    exact hjson.1.2.symm

end Slots

/-- A database without names. -/
def nameless : Connection where
  labels := .empty
  relationshipTypes := .empty
  propertyKeys := .empty
  zones := berlinSummer
  wrapLongitude := toMeridian
  shapes := ⟨fun _ => ⟨0⟩, fun _ _ => .error ⟨"unsupported Lithograph JSON $type"⟩, fun _ => .null⟩

/-- No JSON. -/
def noJson : JsonText := ⟨fun _ => [], fun _ => none⟩

/-- What a semantic index is configured with: a number, and the same number with its type. -/
def plainConfig : Json := .object [("n".toList, .int 5)]

def taggedConfig : Json := .object [("n".toList, taggedText "Integer" "5".toList)]

def semanticIndex (config : Json) : SchemaObject :=
  .index ⟨"i".toList, .semantic, .nodeProperties "L".toList ["p".toList], none, [], [],
    some (.semantic "local".toList config ⟨3, by decide⟩ "cosine".toList)⟩

/-- A database that reads the number with its type. -/
def typed : Connection :=
  { nameless with
    shapes := ⟨fun _ => ⟨0⟩, fun tag fields =>
      match fields.lookup "value".toList with
      | some (.string text) =>
        if tag = "Integer".toList ∧ text = "5".toList then .ok (.integer 5)
        else .error ⟨"unsupported Lithograph JSON $type"⟩
      | _ => .error ⟨"unsupported Lithograph JSON $type"⟩, fun _ => .null⟩ }

/-- The library on the two indexes. -/
def compactJson : JsonText where
  write json := Text.utf8 (compact (fun _ => []) json)
  read bytes :=
    if bytes = Text.utf8 (compact (fun _ => []) (semanticIndex plainConfig).json) then
      some (semanticIndex plainConfig).json
    else if bytes = Text.utf8 (compact (fun _ => []) (semanticIndex taggedConfig).json) then
      some (semanticIndex taggedConfig).json
    else none

end Lithograph.Version
