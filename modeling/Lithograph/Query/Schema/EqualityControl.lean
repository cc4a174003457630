/-
  File:      Lithograph/Query/Schema/EqualityControl.lean
  Subject:   The equality keys a validation builds under control of its memory
             (`query/schema/validate/controlled.rs`).

  The buffer grows chunk by chunk. The checkpoints can only end a build and are left out.

  * **`controlledKey_eq`**: both builders give the same key, or the same absence of one.
-/
import Lithograph.Library.Lexicographic
import Lithograph.Query.Schema.Equality
import Lithograph.Storage.PropertyColumns

namespace Lithograph.Query

open Library Storage

/-! ## 1. The controlled builder -/

/-- `KeyBytes::append`: 64 KiB at a time. -/
def appendKey (key bytes : Bytes) : Bytes :=
  (chunks (64 * 1024) bytes.length bytes).foldl (fun key chunk => key ++ chunk) key

/-- `normalized_f32`, on the bytes of a coordinate. -/
def normalizedF32 (bytes : Bytes) : Option Bytes :=
  if 0x7f800000 < leNat bytes % 2 ^ 31 then none
  else some (if leNat bytes % 2 ^ 31 = 0 then [0, 0, 0, 0] else bytes)

/-- `normalized_f64`, on the bytes of a coordinate. -/
def normalizedF64 (bytes : Bytes) : Option Bytes :=
  let value : F64 := ⟨UInt64.ofNat (leNat bytes)⟩
  if value.isNan then none
  else some (if floatMagnitude value = 0 then [0, 0, 0, 0, 0, 0, 0, 0] else bytes)

/-- `coordinate_keys`: the key so far, where no coordinate was NaN. -/
def normalizedKeys (width : Nat) (normalize : Bytes → Option Bytes) :
    Nat → Bytes → Bytes → Option Bytes
  | 0, _, key => some key
  | n + 1, packed, key =>
    match normalize (packed.take width) with
    | none => none
    | some bytes => normalizedKeys width normalize n (packed.drop width) (appendKey key bytes)

/-- The loop of `point_key`. -/
def coordinatesKey : List F64 → Bytes → Option Bytes
  | [], key => some key
  | coordinate :: rest, key =>
    if coordinate.isNan then none
    else coordinatesKey rest (appendKey key
      (u64Bytes (if floatMagnitude coordinate = 0 then 0 else coordinate.bits.toNat)))

/-- `point_key`. -/
def controlledPointKey (point : PointValue) : Option Bytes :=
  let key := appendKey [] (Text.utf8 "point".toList)
  let key := appendKey key (i64Bytes point.crs)
  coordinatesKey point.coordinates (appendKey key (u64Bytes point.coordinates.length))

/-- `typed_key`. -/
def controlledTypedKey (value : PropertyValue) : QueryResult Bytes := do
  let canonical ← ofStorage value.canonicalBytes
  pure (appendKey (appendKey [] (Text.utf8 "typed".toList)) canonical)

/-- `vector_key`: the canonical form is only checked. -/
def controlledVectorKey (vector : VectorValue) : QueryResult (Option Bytes) := do
  let _ ← ofStorage (PropertyValue.vector vector).canonicalBytes
  let key := appendKey [] (Text.utf8 "vector".toList)
  let key := appendKey key [vector.coordinateType.tag]
  let key := appendKey key (u64Bytes vector.dimension)
  match vector.coordinateType with
  | .f32 => pure (normalizedKeys 4 normalizedF32 (vector.packed.length / 4) vector.packed key)
  | .f64 => pure (normalizedKeys 8 normalizedF64 (vector.packed.length / 8) vector.packed key)
  | _ => (controlledTypedKey (.vector vector)).map some

/-- The key of a number is built by `property_equality_key` and copied. -/
def copiedKey (value : PropertyValue) : QueryResult (Option Bytes) := do
  let bytes ← equalityKey value
  match bytes with
  | none => pure none
  | some bytes => pure (some (appendKey [] bytes))

mutual

/-- `equality_key`. -/
def controlledKey : PropertyValue → QueryResult (Option Bytes)
  | .integer value => copiedKey (.integer value)
  | .float value => copiedKey (.float value)
  | .list values => controlledListKey values (appendKey [] (Text.utf8 "list".toList))
  | .point point => .ok (controlledPointKey point)
  | .vector vector => controlledVectorKey vector
  | value => (controlledTypedKey value).map some

/-- `list_key`. -/
def controlledListKey : List PropertyValue → Bytes → QueryResult (Option Bytes)
  | [], key => .ok (some key)
  | value :: rest, key => do
    let part ← controlledKey value
    match part with
    | none => pure none
    | some part => controlledListKey rest (appendKey (appendKey key (u64Bytes part.length)) part)

end

/-! ## 2. Parts of a key -/

theorem foldl_append : ∀ (parts : List Bytes) (key : Bytes),
    parts.foldl (fun key chunk => key ++ chunk) key = key ++ parts.flatten
  | [], key => (List.append_nil key).symm
  | part :: parts, key => by
    rw [List.foldl_cons, foldl_append parts, List.flatten_cons, List.append_assoc]

/-- **Appending chunk by chunk appends.** -/
theorem appendKey_eq (key bytes : Bytes) : appendKey key bytes = key ++ bytes := by
  unfold appendKey
  rw [foldl_append, flatten_chunks (by decide) (Nat.le_refl _)]

theorem leBytes_zero : ∀ width : Nat, leBytes width 0 = List.replicate width 0
  | 0 => rfl
  | width + 1 => by
    rw [leBytes, Nat.zero_div, leBytes_zero width, List.replicate_succ]
    rfl

theorem normalizedF32_eq {bytes : Bytes} (h : bytes.length = 4) :
    normalizedF32 bytes = (equalityF32Bits (leNat bytes)).map (leBytes 4) := by
  have hback := PropertyColumns.leBytes_leNat bytes
  rw [h] at hback
  unfold normalizedF32 equalityF32Bits
  split
  · rfl
  · split
    · rfl
    · rw [Option.map_some, hback]

theorem normalizedF64_eq {bytes : Bytes} (h : bytes.length = 8) :
    normalizedF64 bytes = (equalityF64Bits ⟨UInt64.ofNat (leNat bytes)⟩).map (leBytes 8) := by
  have hback := PropertyColumns.leBytes_leNat bytes
  rw [h] at hback
  have hlt := leNat_lt bytes
  rw [h] at hlt
  have hbits : (UInt64.ofNat (leNat bytes)).toNat = leNat bytes := by
    exact Nat.mod_eq_of_lt hlt
  unfold normalizedF64 equalityF64Bits
  dsimp only
  split
  · rfl
  · split
    · rfl
    · rw [Option.map_some, hbits, hback]

theorem normalizedKeys_eq {width : Nat} {normalize : Bytes → Option Bytes} {bits : Nat → Option Nat}
    (h : ∀ bytes : Bytes, bytes.length = width →
      normalize bytes = (bits (leNat bytes)).map (leBytes width)) :
    ∀ (n : Nat) (packed key : Bytes), n * width ≤ packed.length →
      normalizedKeys width normalize n packed key = coordinateKeys width bits n packed key
  | 0, _, _, _ => rfl
  | n + 1, packed, key, hlength => by
    rw [Nat.succ_mul] at hlength
    have hfirst : (packed.take width).length = width := by
      rw [List.length_take]
      omega
    have hrest : n * width ≤ (packed.drop width).length := by
      rw [List.length_drop]
      omega
    unfold normalizedKeys coordinateKeys
    rw [h _ hfirst]
    cases bits (leNat (packed.take width)) with
    | none => rfl
    | some value =>
      show normalizedKeys width normalize n _ (appendKey key _) = _
      rw [appendKey_eq, normalizedKeys_eq h n _ _ hrest]

theorem coordinatesKey_eq : ∀ (coordinates : List F64) (key : Bytes),
    coordinatesKey coordinates key = coordinates.foldlM (fun key coordinate => do
      let bits ← equalityF64Bits coordinate
      pure (key ++ u64Bytes bits)) key
  | [], _ => rfl
  | coordinate :: rest, key => by
    unfold coordinatesKey equalityF64Bits
    rw [List.foldlM_cons]
    cases coordinate.isNan with
    | true => rfl
    | false =>
      rw [if_neg Bool.false_ne_true, if_neg Bool.false_ne_true, appendKey_eq, coordinatesKey_eq]
      split <;> rfl

/-! ## 3. Both builders -/

theorem controlledPointKey_eq (point : PointValue) : controlledPointKey point = pointKey point := by
  unfold controlledPointKey pointKey
  simp only [appendKey_eq, coordinatesKey_eq, List.nil_append]

theorem controlledTypedKey_eq (value : PropertyValue) :
    controlledTypedKey value = typedKey value := by
  unfold controlledTypedKey typedKey
  simp only [appendKey_eq, List.nil_append]

theorem controlledVectorKey_eq (vector : VectorValue) :
    controlledVectorKey vector = vectorKey vector := by
  unfold controlledVectorKey vectorKey
  simp only [appendKey_eq, List.nil_append, controlledTypedKey_eq]
  cases vector.coordinateType with
  | f32 =>
    rw [normalizedKeys_eq (fun _ h => normalizedF32_eq h) _ _ _ (Nat.div_mul_le_self _ _)]
  | f64 =>
    rw [@normalizedKeys_eq 8 normalizedF64 (fun bits => equalityF64Bits ⟨UInt64.ofNat bits⟩)
      (fun _ h => normalizedF64_eq h) _ _ _ (Nat.div_mul_le_self _ _)]
  | _ => rfl

theorem copiedKey_eq (value : PropertyValue) : copiedKey value = equalityKey value := by
  unfold copiedKey
  cases equalityKey value with
  | error e => rfl
  | ok key =>
    cases key with
    | none => rfl
    | some key =>
      show Except.ok (some (appendKey [] key)) = _
      rw [appendKey_eq, List.nil_append]

mutual

/-- **Both builders give the same key or none.** -/
theorem controlledKey_eq : ∀ value : PropertyValue, controlledKey value = equalityKey value
  | .integer value => copiedKey_eq (.integer value)
  | .float value => copiedKey_eq (.float value)
  | .list values => by
    unfold controlledKey equalityKey
    rw [appendKey_eq, List.nil_append, controlledListKey_eq]
  | .point point => by
    unfold controlledKey equalityKey
    rw [controlledPointKey_eq]
  | .vector vector => controlledVectorKey_eq vector
  | .boolean _ | .string _ | .date _ | .localTime _ | .time _ _ | .localDateTime _ _
  | .zonedDateTime _ | .duration _ _ _ _ | .uuid _ => by
    unfold controlledKey equalityKey
    rw [controlledTypedKey_eq]

theorem controlledListKey_eq : ∀ (values : List PropertyValue) (key : Bytes),
    controlledListKey values key = listKey values key
  | [], _ => rfl
  | value :: rest, key => by
    unfold controlledListKey listKey
    rw [controlledKey_eq value]
    cases equalityKey value with
    | error e => rfl
    | ok part =>
      cases part with
      | none => rfl
      | some part =>
        show controlledListKey rest (appendKey (appendKey key _) part) = _
        rw [appendKey_eq, appendKey_eq, List.append_assoc]
        exact controlledListKey_eq rest _

end

end Lithograph.Query
