/-
  File:      Lithograph/Storage/ValueRoundTrip.lean
  Subject:   The round trip of canonical property values (`storage/value.rs`).

  * `valueCodec`: both directions, and no accepted bytes begin other accepted bytes.
-/
import Lithograph.Storage.ValueCodec

namespace Lithograph.Storage

open Library

/-! ## 1. The canonical form of a value -/

/-- The number with the one NaN the encoder writes. -/
def F64.canonical (x : F64) : F64 := ⟨UInt64.ofNat (canonicalF64Bits x)⟩

/-- The vector with the payload the encoder writes. -/
def VectorValue.canonical (v : VectorValue) : VectorValue :=
  match canonicalizeVectorBytes v with
  | .ok packed => { v with packed := packed }
  | .error _ => v

mutual

/-- **The value with every NaN in the form the encoder writes**, and nothing else changed. -/
def PropertyValue.canonical : PropertyValue → PropertyValue
  | .float value => .float value.canonical
  | .list values => .list (canonicalList values)
  | .point value => .point { value with coordinates := value.coordinates.map F64.canonical }
  | .vector value => .vector value.canonical
  | value => value

def canonicalList : List PropertyValue → List PropertyValue
  | [] => []
  | value :: rest => value.canonical :: canonicalList rest

end

mutual

/-- The numbers of the value are of the machine types the source gives them. -/
def PropertyValue.InRange : PropertyValue → Prop
  | .integer value => IsI64 value
  | .list values => AllInRange values
  | .date days => IsI64 days
  | .localTime nanoseconds => nanoseconds < 2 ^ 64
  | .time nanoseconds offsetSeconds => nanoseconds < 2 ^ 64 ∧ IsI32 offsetSeconds
  | .localDateTime day nanoseconds => IsI64 day ∧ nanoseconds < 2 ^ 64
  | .zonedDateTime value => IsI64 value.epochSeconds ∧ value.nanoseconds < 2 ^ 32
  | .duration months days seconds nanoseconds =>
      IsI64 months ∧ IsI64 days ∧ IsI64 seconds ∧ IsI64 nanoseconds
  | .point value => IsI64 value.crs
  | .vector value => value.dimension < 2 ^ 64
  | .uuid value => value.length = 16
  | .boolean _ | .float _ | .string _ => True

def AllInRange : List PropertyValue → Prop
  | [] => True
  | value :: rest => value.InRange ∧ AllInRange rest

end

theorem canonicalF64Bits_lt (x : F64) : canonicalF64Bits x < 2 ^ 64 := by
  unfold canonicalF64Bits
  split
  · decide
  · exact x.bits.toNat_lt

theorem F64.canonical_of_not_nan {x : F64} (h : x.isNan = false) : x.canonical = x := by
  unfold F64.canonical canonicalF64Bits
  rw [h, if_neg (by decide), UInt64.ofNat_toNat]

theorem canonicalF64Bits_canonical (x : F64) :
    canonicalF64Bits x.canonical = canonicalF64Bits x := by
  cases h : x.isNan with
  | false => rw [F64.canonical_of_not_nan h]
  | true =>
    have hbits : canonicalF64Bits x = 0x7ff8000000000000 := by
      unfold canonicalF64Bits
      rw [h, if_pos rfl]
    unfold F64.canonical
    rw [hbits]
    decide

/-! ## 2. Chunks of a vector -/

theorem leNat_lt : ∀ bytes : Bytes, leNat bytes < 256 ^ bytes.length
  | [] => by decide
  | b :: rest => by
    have hb := b.toNat_lt
    have hrest := leNat_lt rest
    rw [leNat, List.length_cons, Nat.pow_succ]
    omega

theorem canonicalizeChunks_length (width : Nat) (canonical : Nat → Nat) :
    ∀ (n : Nat) (bytes : Bytes), (canonicalizeChunks width canonical n bytes).length = n * width
  | 0, _ => by rw [canonicalizeChunks, List.length_nil, Nat.zero_mul]
  | n + 1, bytes => by
    rw [canonicalizeChunks, List.length_append, leBytes_length,
      canonicalizeChunks_length width canonical n, Nat.add_mul, Nat.one_mul, Nat.add_comm]

theorem canonicalizeChunks_idem {width : Nat} {canonical : Nat → Nat}
    (hlt : ∀ n, n < 256 ^ width → canonical n < 256 ^ width)
    (hidem : ∀ n, n < 256 ^ width → canonical (canonical n) = canonical n) :
    ∀ (n : Nat) (bytes : Bytes),
      canonicalizeChunks width canonical n (canonicalizeChunks width canonical n bytes) =
        canonicalizeChunks width canonical n bytes
  | 0, _ => rfl
  | n + 1, bytes => by
    have hchunk : leNat (bytes.take width) < 256 ^ width := by
      refine Nat.lt_of_lt_of_le (leNat_lt _) (Nat.pow_le_pow_right (by decide) ?_)
      rw [List.length_take]
      exact Nat.min_le_left _ _
    have hwidth := leBytes_length width (canonical (leNat (bytes.take width)))
    have hstep : canonicalizeChunks width canonical (n + 1) bytes =
        leBytes width (canonical (leNat (bytes.take width))) ++
          canonicalizeChunks width canonical n (bytes.drop width) := rfl
    rw [hstep, canonicalizeChunks, List.take_left' hwidth, List.drop_left' hwidth,
      leNat_leBytes (hlt _ hchunk),
      hidem _ hchunk, canonicalizeChunks_idem hlt hidem n]

theorem canonicalF32Bits_lt (n : Nat) (h : n < 256 ^ 4) : canonicalF32Bits n < 256 ^ 4 := by
  unfold canonicalF32Bits
  split
  · decide
  · exact h

theorem canonicalF32Bits_idem (n : Nat) :
    canonicalF32Bits (canonicalF32Bits n) = canonicalF32Bits n := by
  by_cases h : 0x7f800000 < n % 2 ^ 31
  · have hbits : canonicalF32Bits n = 0x7fc00000 := if_pos h
    rw [hbits]
    decide
  · have hbits : canonicalF32Bits n = n := if_neg h
    rw [hbits, hbits]

theorem canonicalF64Chunk_idem (n : Nat) :
    canonicalF64Bits ⟨UInt64.ofNat (canonicalF64Bits ⟨UInt64.ofNat n⟩)⟩ =
      canonicalF64Bits ⟨UInt64.ofNat n⟩ := canonicalF64Bits_canonical ⟨UInt64.ofNat n⟩

variable {packed bytes : Bytes} {v : PropertyValue} {nanos : Nat}

/-- What the encoder writes of a vector has the right length, and is written again as it is. -/
theorem canonicalizeVectorBytes_ok {v : VectorValue} (h : canonicalizeVectorBytes v = .ok packed) :
    v.dimension * v.coordinateType.width < 2 ^ 64 ∧
      packed.length = v.dimension * v.coordinateType.width ∧
      canonicalizeVectorBytes { v with packed := packed } = .ok packed := by
  obtain ⟨coordinateType, dimension, old⟩ := v
  unfold canonicalizeVectorBytes at h
  dsimp only at h
  split at h
  · cases h
  split at h
  · cases h
  rename_i hsize hlen
  have hlen : old.length = dimension * coordinateType.width := not_not.mp hlen
  have hnew : packed.length = dimension * coordinateType.width := by
    cases coordinateType <;> first
      | (cases h; exact canonicalizeChunks_length _ _ _ _)
      | (cases h; exact hlen)
  refine ⟨Nat.lt_of_not_le hsize, hnew, ?_⟩
  unfold canonicalizeVectorBytes
  rw [if_neg hsize, if_neg (fun hne => hne hnew)]
  cases coordinateType with
  | f32 =>
    cases h
    exact congrArg Except.ok
      (canonicalizeChunks_idem canonicalF32Bits_lt (fun n _ => canonicalF32Bits_idem n) _ _)
  | f64 =>
    cases h
    exact congrArg Except.ok (canonicalizeChunks_idem (fun n _ => canonicalF64Bits_lt _)
      (fun n _ => canonicalF64Chunk_idem n) _ _)
  | i8 | i16 | i32 | i64 => rfl

theorem VectorValue.canonical_eq {v : VectorValue} (h : canonicalizeVectorBytes v = .ok packed) :
    v.canonical = { v with packed := packed } := by
  unfold VectorValue.canonical
  rw [h]

theorem vectorFields_canonical (v : VectorValue) : vectorFields v.canonical = vectorFields v := by
  cases h : canonicalizeVectorBytes v with
  | error e =>
    unfold VectorValue.canonical
    rw [h]
  | ok packed =>
    have hagain := (canonicalizeVectorBytes_ok h).2.2
    rw [VectorValue.canonical_eq h]
    unfold vectorFields
    rw [hagain, h]

/-! ## 3. The bytes of the canonical form -/

theorem pointFields_canonical (value : PointValue) :
    pointFields { value with coordinates := value.coordinates.map F64.canonical } =
      pointFields value := by
  unfold pointFields
  simp only [List.length_map, List.flatMap_map, canonicalF64Bits_canonical]

mutual

/-- **The canonical form of a value has the bytes of the value.** -/
theorem canonicalBytes_canonical :
    ∀ v : PropertyValue, v.canonical.canonicalBytes = v.canonicalBytes
  | .float value => by
    rw [PropertyValue.canonical, PropertyValue.canonicalBytes, PropertyValue.canonicalBytes,
      canonicalF64Bits_canonical]
  | .list values => by
    rw [PropertyValue.canonical, PropertyValue.canonicalBytes, PropertyValue.canonicalBytes,
      canonicalItems_canonical values]
  | .point value => by
    rw [PropertyValue.canonical, PropertyValue.canonicalBytes, PropertyValue.canonicalBytes,
      pointFields_canonical]
  | .vector value => by
    rw [PropertyValue.canonical, PropertyValue.canonicalBytes, PropertyValue.canonicalBytes,
      vectorFields_canonical]
  | .boolean _ | .integer _ | .string _ | .date _ | .localTime _ | .time _ _
  | .localDateTime _ _ | .zonedDateTime _ | .duration _ _ _ _ | .uuid _ => rfl

theorem canonicalItems_canonical : ∀ values : List PropertyValue,
    canonicalItems (canonicalList values) = canonicalItems values
  | [] => rfl
  | value :: rest => by
    rw [canonicalList, canonicalItems, canonicalItems, canonicalBytes_canonical value,
      canonicalItems_canonical rest]

end

/-! ## 4. The parts of a record come back -/

theorem decodeUlebField_ulebBytes {value : Nat} (h : value < 2 ^ 64) :
    decodeUlebField (ulebBytes value) = .ok value := by
  unfold decodeUlebField
  have hrun := readUleb_reads h 0 []
  rw [List.append_nil] at hrun
  rw [hrun]
  rfl

theorem utf8Checked_utf8 (t : Text) : utf8Checked (Text.utf8 t) = .ok t := by
  unfold utf8Checked
  have hdecode : (Text.utf8 t).toByteArray.utf8Decode? = some t.toArray := List.utf8Decode?_utf8Encode
  rw [hdecode]

theorem coordinatesOf_flatMap : ∀ coordinates : List F64,
    coordinatesOf coordinates.length
      (coordinates.flatMap fun c => u64Bytes (canonicalF64Bits c)) = coordinates.map F64.canonical
  | [] => rfl
  | c :: rest => by
    have hwidth : (u64Bytes (canonicalF64Bits c)).length = 8 := leBytes_length _ _
    have hbits : leNat (u64Bytes (canonicalF64Bits c)) = canonicalF64Bits c :=
      leNat_leBytes (canonicalF64Bits_lt c)
    rw [List.length_cons, List.flatMap_cons, coordinatesOf, List.take_left' hwidth,
      List.drop_left' hwidth, hbits, coordinatesOf_flatMap rest, List.map_cons]
    rfl

theorem length_packedCoordinates (coordinates : List F64) :
    (coordinates.flatMap fun c => u64Bytes (canonicalF64Bits c)).length =
      coordinates.length * 8 := by
  induction coordinates with
  | nil => rfl
  | cons c rest ih =>
    rw [List.flatMap_cons, List.length_append, ih, u64Bytes, leBytes_length, List.length_cons]
    omega

theorem valueFields_reads {fields : List Bytes} (hsize : Sized fields)
    (hcount : fields.length ≠ 0 ∧ fields.length ≤ 5) :
    Reads (do
      recordHeader "VALUE"
      let count ← fieldCount
      if count = 0 ∨ 5 < count then corruptReader "VALUE record has invalid field count"
      else times nextField count) fields (record "VALUE" fields) := by
  refine (recordHeader_reads (by decide)).bind (counted_reads hsize.count ?_)
  rw [if_neg (by omega)]
  exact reads_times fun f hf => nextField_reads (hsize.each f hf)

theorem borrowedValueFields_record {fields : List Bytes} (hsize : Sized fields)
    (hcount : fields.length ≠ 0 ∧ fields.length ≤ 5) :
    borrowedValueFields (record "VALUE" fields) = .ok fields :=
  finish_ok (valueFields_reads hsize hcount)

theorem expectedFieldCount_le {tag : UInt8} {n : Nat} (h : expectedFieldCount tag = .ok n) :
    n ≤ 5 := by
  unfold expectedFieldCount at h
  split at h <;> cases h <;> decide

/-- **A record that decodes to its value is accepted.** -/
theorem fromCanonicalBytes_record {tag : UInt8} {payload : List Bytes}
    (hform : v.canonicalBytes = recordChecked "VALUE" ([tag] :: payload))
    (hcount : expectedFieldCount tag = .ok (payload.length + 1))
    (hvalue : decodeValue fromCanonicalBytes tag payload = .ok v.canonical)
    (h : v.canonicalBytes = .ok bytes) : fromCanonicalBytes bytes = .ok v.canonical := by
  obtain ⟨hsize, rfl⟩ := recordChecked_ok (hform.symm.trans h)
  have hle : payload.length + 1 ≤ 5 := expectedFieldCount_le hcount
  rw [fromCanonicalBytes_eq]
  unfold decodeRecord
  rw [borrowedValueFields_record hsize ⟨Nat.succ_ne_zero _, hle⟩, ok_bind]
  have htag : tagOf ([tag] :: payload) = .ok tag := rfl
  rw [htag, ok_bind, hcount, ok_bind]
  have hlen : corruptWhen (([tag] :: payload).length ≠ payload.length + 1)
      ("VALUE type tag " ++ toString tag ++ " requires " ++ toString (payload.length + 1) ++
        " field(s), found " ++ toString ([tag] :: payload).length) = .ok () := by
    simp
  rw [hlen, ok_bind, List.tail_cons, hvalue, ok_bind, canonicalBytes_canonical, h, ok_bind]
  have hsame : corruptWhen (record "VALUE" ([tag] :: payload) ≠ record "VALUE" ([tag] :: payload))
      "VALUE record is not in canonical LCE1 form" = .ok () := by
    simp
  rw [hsame]
  rfl

/-! ## 5. The round trip -/

theorem items_reads : ∀ {values : List PropertyValue} {items : List Bytes},
    canonicalItems values = .ok items → (∀ item ∈ items, item.length < 2 ^ 64) →
    (∀ v ∈ values, ∀ bytes, v.canonicalBytes = .ok bytes →
      fromCanonicalBytes bytes = .ok v.canonical) →
    Reads (times (listItem fromCanonicalBytes) items.length) (canonicalList values)
      (items.flatMap fieldBytes)
  | [], items, h, _, _ => by
    cases h
    exact reads_pure []
  | value :: rest, items, h, hsize, hback => by
    obtain ⟨item, hitem, h⟩ := bind_eq_ok.mp h
    obtain ⟨items', hitems, h⟩ := bind_eq_ok.mp h
    cases h
    have hhead : Reads (listItem fromCanonicalBytes) value.canonical (fieldBytes item) := by
      have hread := nextField_reads (hsize item (.head _))
      have hdecode := hback value (.head _) item hitem
      intro offset more
      unfold listItem
      rw [StateT.run_bind, hread offset more, ok_bind]
      show (fromCanonicalBytes item >>= fun a => pure (a, _)) = _
      rw [hdecode, ok_bind]
      rfl
    have htail := items_reads hitems (fun i hi => hsize i (List.mem_cons_of_mem item hi))
      fun v hv => hback v (List.mem_cons_of_mem value hv)
    exact hhead.bind (htail.map (value.canonical :: ·))

theorem decodeList_items {values : List PropertyValue} {items : List Bytes}
    (h : canonicalItems values = .ok items) (hsize : Sized items)
    (hback : ∀ v ∈ values, ∀ bytes, v.canonicalBytes = .ok bytes →
      fromCanonicalBytes bytes = .ok v.canonical) :
    decodeList fromCanonicalBytes [encodeCounted items] = .ok (.list (canonicalList values)) := by
  have hreads : Reads (do
      let count ← fieldCount
      times (listItem fromCanonicalBytes) count) (canonicalList values) (encodeCounted items) :=
    counted_reads hsize.count (items_reads h hsize.each hback)
  have hfield : field [encodeCounted items] 0 = .ok (encodeCounted items) := rfl
  unfold decodeList
  rw [hfield, ok_bind, finish_ok hreads]
  rfl

theorem decodePoint_fields {value : PointValue} (hcrs : IsI64 value.crs)
    (hsize : Sized (pointFields value)) :
    decodePoint (pointFields value).tail =
      .ok (.point { value with coordinates := value.coordinates.map F64.canonical }) := by
  have hpacked : value.coordinates.length * 8 < 2 ^ 64 := by
    rw [← length_packedCoordinates]
    exact hsize.each _ (by simp [pointFields])
  have hlen := length_packedCoordinates value.coordinates
  unfold decodePoint pointFields field
  simp only [List.tail_cons, List.getElem?_cons_zero, List.getElem?_cons_succ, ok_bind,
    decodeI64_i64Bytes hcrs,
    decodeUlebField_ulebBytes (show value.coordinates.length < 2 ^ 64 by omega),
    coordinatesOf_flatMap]
  rw [hlen]
  simp only [ne_eq, not_true_eq_false, decide_false, Nat.not_le.mpr hpacked]
  rfl

theorem coordinateTypeOf_tag (t : VectorCoordinateType) : coordinateTypeOf t.tag = .ok t := by
  cases t <;> rfl

theorem decodeVector_fields {value : VectorValue} (hdimension : value.dimension < 2 ^ 64)
    (h : canonicalizeVectorBytes value = .ok packed) :
    decodeVector [[value.coordinateType.tag], ulebBytes value.dimension, packed] =
      .ok (.vector value.canonical) := by
  obtain ⟨hsize, hlen, _⟩ := canonicalizeVectorBytes_ok h
  rw [VectorValue.canonical_eq h]
  unfold decodeVector oneByte field
  simp only [List.getElem?_cons_zero, List.getElem?_cons_succ, ok_bind, coordinateTypeOf_tag,
    decodeUlebField_ulebBytes hdimension, pure_bind]
  rw [hlen]
  simp only [ne_eq, not_true_eq_false, decide_false, Nat.not_le.mpr hsize]
  rfl

section Families

variable {decode : Bytes → StorageResult PropertyValue}

@[simp] theorem field_zero (bytes : Bytes) (rest : List Bytes) :
    field (bytes :: rest) 0 = .ok bytes := rfl

@[simp] theorem field_succ (bytes : Bytes) (rest : List Bytes) (n : Nat) :
    field (bytes :: rest) (n + 1) = field rest n := rfl

theorem decodeValue_boolean (value : Bool) :
    decodeValue decode 1 [[if value then 1 else 0]] = .ok (.boolean value) := by
  cases value <;> rfl

theorem decodeValue_integer {value : Int} (h : IsI64 value) :
    decodeValue decode 2 [i64Bytes value] = .ok (.integer value) := by
  rw [decodeValue_integer_fields, field_zero, ok_bind, decodeI64_i64Bytes h]
  rfl

theorem decodeValue_float (value : F64) :
    decodeValue decode 3 [u64Bytes (canonicalF64Bits value)] = .ok (.float value.canonical) := by
  simp only [decodeValue, decodeBasicValue, field_zero, ok_bind,
    decodeU64_u64Bytes (canonicalF64Bits_lt value)]
  rfl

theorem decodeValue_string (value : Text) :
    decodeValue decode 4 [Text.utf8 value] = .ok (.string value) := by
  simp only [decodeValue, decodeBasicValue, field_zero, ok_bind, utf8Checked_utf8]
  rfl

theorem decodeValue_date {days : Int} (h : IsI64 days) :
    decodeValue decode 6 [i64Bytes days] = .ok (.date days) := by
  rw [decodeValue_date_fields, field_zero, ok_bind, decodeI64_i64Bytes h]
  rfl

theorem decodeValue_localTime (h : nanos < 2 ^ 64) :
    decodeValue decode 7 [u64Bytes nanos] = .ok (.localTime nanos) := by
  simp only [decodeValue, decodeTemporalValue, field_zero, ok_bind, decodeU64_u64Bytes h]
  rfl

theorem decodeValue_time {offset : Int} (hn : nanos < 2 ^ 64) (ho : IsI32 offset) :
    decodeValue decode 8 [u64Bytes nanos, i32Bytes offset] = .ok (.time nanos offset) := by
  simp only [decodeValue, decodeTemporalValue, field_zero, field_succ, ok_bind,
    decodeU64_u64Bytes hn, decodeI32_i32Bytes ho]
  rfl

theorem decodeValue_localDateTime {day : Int} (hd : IsI64 day) (hn : nanos < 2 ^ 64) :
    decodeValue decode 9 [i64Bytes day, u64Bytes nanos] = .ok (.localDateTime day nanos) := by
  simp only [decodeValue, decodeTemporalValue, field_zero, field_succ, ok_bind,
    decodeI64_i64Bytes hd, decodeU64_u64Bytes hn]
  rfl

theorem decodeValue_zonedDateTime {value : ZonedDateTimeValue} (he : IsI64 value.epochSeconds)
    (hn : value.nanoseconds < 2 ^ 32) :
    decodeValue decode 10 [i64Bytes value.epochSeconds, u32Bytes value.nanoseconds,
      Text.utf8 value.zoneId] = .ok (.zonedDateTime value) := by
  simp only [decodeValue, decodeTemporalValue, decodeZonedDatetime, field_zero, field_succ,
    ok_bind, decodeI64_i64Bytes he, decodeU32_u32Bytes hn, utf8Checked_utf8]
  rfl

theorem decodeValue_duration {months days seconds nanos : Int} (hm : IsI64 months)
    (hd : IsI64 days) (hs : IsI64 seconds) (hn : IsI64 nanos) :
    decodeValue decode 11 [i64Bytes months, i64Bytes days, i64Bytes seconds, i64Bytes nanos] =
      .ok (.duration months days seconds nanos) := by
  simp only [decodeValue, decodeTemporalValue, decodeDuration, field_zero, field_succ, ok_bind,
    decodeI64_i64Bytes hm, decodeI64_i64Bytes hd, decodeI64_i64Bytes hs, decodeI64_i64Bytes hn]
  rfl

theorem decodeValue_uuid {value : Bytes} (h : value.length = 16) :
    decodeValue decode 14 [value] = .ok (.uuid value) := by
  simp only [decodeValue, decodeSpecialValue, decodeUuid, field_zero, ok_bind, h]
  rfl

end Families

mutual

/-- **What was encoded comes back**, in its canonical form. -/
theorem fromCanonicalBytes_canonicalBytes : ∀ (v : PropertyValue) {bytes : Bytes}, v.InRange →
    v.canonicalBytes = .ok bytes → fromCanonicalBytes bytes = .ok v.canonical
  | .boolean value, _, _, h =>
    fromCanonicalBytes_record (by rw [PropertyValue.canonicalBytes]) rfl
      (decodeValue_boolean value) h
  | .integer _, _, hrange, h =>
    fromCanonicalBytes_record (by rw [PropertyValue.canonicalBytes]) rfl
      (decodeValue_integer hrange) h
  | .float value, _, _, h =>
    fromCanonicalBytes_record (by rw [PropertyValue.canonicalBytes]) rfl (decodeValue_float value) h
  | .string value, _, _, h =>
    fromCanonicalBytes_record (by rw [PropertyValue.canonicalBytes]) rfl
      (decodeValue_string value) h
  | .list values, bytes, hrange, h => by
    have henc := h
    obtain ⟨items, hitems, henc⟩ := bind_eq_ok.mp henc
    obtain ⟨counted, hcounted, henc⟩ := bind_eq_ok.mp henc
    obtain ⟨hsize, hcounted'⟩ := encodeCountedChecked_ok hcounted
    subst hcounted'
    exact fromCanonicalBytes_record
      (by rw [PropertyValue.canonicalBytes, hitems, ok_bind, hcounted, ok_bind]) rfl
      (show decodeValue fromCanonicalBytes 5 _ = _ from
        decodeList_items hitems hsize (fromCanonicalBytes_items values hrange)) h
  | .date _, _, hrange, h =>
    fromCanonicalBytes_record (by rw [PropertyValue.canonicalBytes]) rfl (decodeValue_date hrange) h
  | .localTime _, _, hrange, h =>
    fromCanonicalBytes_record (by rw [PropertyValue.canonicalBytes]) rfl
      (decodeValue_localTime hrange) h
  | .time _ _, _, hrange, h =>
    fromCanonicalBytes_record (by rw [PropertyValue.canonicalBytes]) rfl
      (decodeValue_time hrange.1 hrange.2) h
  | .localDateTime _ _, _, hrange, h =>
    fromCanonicalBytes_record (by rw [PropertyValue.canonicalBytes]) rfl
      (decodeValue_localDateTime hrange.1 hrange.2) h
  | .zonedDateTime _, _, hrange, h =>
    fromCanonicalBytes_record (by rw [PropertyValue.canonicalBytes]) rfl
      (decodeValue_zonedDateTime hrange.1 hrange.2) h
  | .duration _ _ _ _, _, hrange, h =>
    fromCanonicalBytes_record (by rw [PropertyValue.canonicalBytes]) rfl
      (decodeValue_duration hrange.1 hrange.2.1 hrange.2.2.1 hrange.2.2.2) h
  | .point value, _, hrange, h => by
    have hform : (PropertyValue.point value).canonicalBytes =
        recordChecked "VALUE" (pointFields value) := by rw [PropertyValue.canonicalBytes]
    exact fromCanonicalBytes_record hform rfl
      (decodePoint_fields hrange (recordChecked_ok (hform.symm.trans h)).1) h
  | .vector value, bytes, hrange, h => by
    have henc := h
    obtain ⟨fields, hfields, henc⟩ := bind_eq_ok.mp henc
    obtain ⟨packed, hpacked, hvector⟩ := bind_eq_ok.mp hfields
    cases hvector
    exact fromCanonicalBytes_record (by rw [PropertyValue.canonicalBytes, hfields, ok_bind]) rfl
      (show decodeValue fromCanonicalBytes 13 _ = _ from decodeVector_fields hrange hpacked) h
  | .uuid _, _, hrange, h =>
    fromCanonicalBytes_record (by rw [PropertyValue.canonicalBytes]) rfl (decodeValue_uuid hrange) h

theorem fromCanonicalBytes_items : ∀ values : List PropertyValue, AllInRange values →
    ∀ v ∈ values, ∀ bytes, v.canonicalBytes = .ok bytes → fromCanonicalBytes bytes = .ok v.canonical
  | [], _, v, hv, _, _ => absurd hv List.not_mem_nil
  | value :: rest, hrange, v, hv, bytes, h => by
    rcases List.mem_cons.mp hv with heq | hv
    · rw [heq] at h ⊢
      exact fromCanonicalBytes_canonicalBytes value hrange.1 h
    · exact fromCanonicalBytes_items rest hrange.2 v hv bytes h

end

/-! ## 6. The codec -/

theorem canonicalBytes_of_fromCanonicalBytes {bytes : Bytes} {v : PropertyValue}
    (h : fromCanonicalBytes bytes = .ok v) : v.canonicalBytes = .ok bytes := by
  rw [fromCanonicalBytes_eq] at h
  unfold decodeRecord at h
  obtain ⟨fields, _, h⟩ := bind_eq_ok.mp h
  obtain ⟨tag, _, h⟩ := bind_eq_ok.mp h
  obtain ⟨expected, _, h⟩ := bind_eq_ok.mp h
  obtain ⟨_, _, h⟩ := bind_eq_ok.mp h
  obtain ⟨value, _, h⟩ := bind_eq_ok.mp h
  obtain ⟨encoded, hencoded, h⟩ := bind_eq_ok.mp h
  obtain ⟨_, hsame, h⟩ := bind_eq_ok.mp h
  cases h
  have heq : encoded = bytes := by simpa using corruptWhen_ok.mp hsame
  rw [hencoded, heq]

theorem canonicalBytes_reads (h : v.canonicalBytes = .ok bytes) : ∃ fields, Reads (do
      recordHeader "VALUE"
      let count ← fieldCount
      if count = 0 ∨ 5 < count then corruptReader "VALUE record has invalid field count"
      else times nextField count) fields bytes := by
  have hform : ∃ fields : List Bytes, (fields.length ≠ 0 ∧ fields.length ≤ 5) ∧
      recordChecked "VALUE" fields = .ok bytes := by
    cases v with
    | list values =>
      obtain ⟨items, _, h⟩ := bind_eq_ok.mp h
      obtain ⟨counted, _, h⟩ := bind_eq_ok.mp h
      exact ⟨_, ⟨by simp, by simp⟩, h⟩
    | vector value =>
      obtain ⟨fields, hfields, h⟩ := bind_eq_ok.mp h
      obtain ⟨packed, _, hfields⟩ := bind_eq_ok.mp hfields
      cases hfields
      exact ⟨_, ⟨by simp, by simp⟩, h⟩
    | _ =>
      exact ⟨_, ⟨by simp [pointFields], by simp [pointFields]⟩, h⟩
  obtain ⟨fields, hcount, h⟩ := hform
  obtain ⟨hsize, rfl⟩ := recordChecked_ok h
  exact ⟨fields, valueFields_reads hsize hcount⟩

theorem fromCanonicalBytes_extended {extra : Bytes} (h : v.canonicalBytes = .ok bytes)
    (hextra : extra ≠ []) : fromCanonicalBytes (bytes ++ extra) =
      .error (.corrupt "LCE1 fields have missing items or trailing bytes") := by
  obtain ⟨fields, hreads⟩ := canonicalBytes_reads h
  rw [fromCanonicalBytes_eq]
  unfold decodeRecord borrowedValueFields
  rw [finish_extended hreads hextra]
  rfl

theorem fromCanonicalBytes_shortened {start : Bytes} {w : PropertyValue}
    (h : v.canonicalBytes = .ok bytes) (hstart : start <+: bytes)
    (haccepted : fromCanonicalBytes start = .ok w) : start = bytes := by
  obtain ⟨fields, hreads⟩ := canonicalBytes_reads h
  obtain ⟨fields', hreads'⟩ :=
    canonicalBytes_reads (canonicalBytes_of_fromCanonicalBytes haccepted)
  obtain ⟨extra, rfl⟩ := hstart
  exact (hreads'.unique hreads (s := extra) (t := []) (by rw [List.append_nil])).2.1

mutual

/-- Every NaN of the value has the bits the encoder writes. -/
def PropertyValue.PlainNans : PropertyValue → Prop
  | .float value => value.isNan = true → value.bits = 0x7ff8000000000000
  | .list values => AllPlainNans values
  | .point value => ∀ c ∈ value.coordinates, c.isNan = true → c.bits = 0x7ff8000000000000
  | .vector value => canonicalizeVectorBytes value = .ok value.packed
  | _ => True

def AllPlainNans : List PropertyValue → Prop
  | [] => True
  | value :: rest => value.PlainNans ∧ AllPlainNans rest

end

theorem F64.canonical_eq_self {x : F64} :
    x.canonical = x ↔ (x.isNan = true → x.bits = 0x7ff8000000000000) := by
  cases h : x.isNan with
  | false => simp [F64.canonical_of_not_nan h]
  | true =>
    have hbits : x.canonical = ⟨0x7ff8000000000000⟩ := by
      unfold F64.canonical canonicalF64Bits
      rw [h, if_pos rfl]
      rfl
    rw [hbits]
    obtain ⟨bits⟩ := x
    constructor
    · intro heq _
      injection heq with heq
      exact heq.symm
    · intro heq
      rw [show bits = 0x7ff8000000000000 from heq rfl]

mutual

theorem canonical_eq_self : ∀ (v : PropertyValue) {bytes : Bytes}, v.canonicalBytes = .ok bytes →
    (v.canonical = v ↔ v.PlainNans)
  | .float value, _, _ => by
    rw [PropertyValue.canonical, PropertyValue.PlainNans, PropertyValue.float.injEq]
    exact F64.canonical_eq_self
  | .list values, _, h => by
    obtain ⟨items, hitems, _⟩ := bind_eq_ok.mp h
    rw [PropertyValue.canonical, PropertyValue.PlainNans, PropertyValue.list.injEq]
    exact canonicalList_eq_self values hitems
  | .point value, _, _ => by
    obtain ⟨crs, coordinates⟩ := value
    rw [PropertyValue.canonical, PropertyValue.PlainNans, PropertyValue.point.injEq,
      PointValue.mk.injEq]
    have hmap : coordinates.map F64.canonical = coordinates ↔
        ∀ c ∈ coordinates, c.canonical = c := by
      conv_lhs => rhs; rw [← List.map_id coordinates]
      rw [List.map_inj_left]
      rfl
    simp only [true_and, hmap, F64.canonical_eq_self]
  | .vector value, _, h => by
    obtain ⟨fields, hfields, _⟩ := bind_eq_ok.mp h
    obtain ⟨packed, hpacked, _⟩ := bind_eq_ok.mp hfields
    rw [PropertyValue.canonical, PropertyValue.PlainNans, PropertyValue.vector.injEq,
      VectorValue.canonical_eq hpacked, hpacked, VectorValue.mk.injEq, Except.ok.injEq]
    simp
  | .boolean _, _, _ | .integer _, _, _ | .string _, _, _ | .date _, _, _ | .localTime _, _, _
  | .time _ _, _, _ | .localDateTime _ _, _, _ | .zonedDateTime _, _, _
  | .duration _ _ _ _, _, _ | .uuid _, _, _ => ⟨fun _ => trivial, fun _ => rfl⟩

theorem canonicalList_eq_self : ∀ (values : List PropertyValue) {items : List Bytes},
    canonicalItems values = .ok items → (canonicalList values = values ↔ AllPlainNans values)
  | [], _, _ => ⟨fun _ => trivial, fun _ => rfl⟩
  | value :: rest, _, h => by
    obtain ⟨item, hitem, h⟩ := bind_eq_ok.mp h
    obtain ⟨items, hitems, _⟩ := bind_eq_ok.mp h
    rw [canonicalList, AllPlainNans, List.cons.injEq, canonical_eq_self value hitem,
      canonicalList_eq_self rest hitems]

end

mutual

theorem inRange_canonical : ∀ v : PropertyValue, v.InRange → v.canonical.InRange
  | .list values, h => by
    exact allInRange_canonical values h
  | .vector value, h => by
    rw [PropertyValue.canonical, PropertyValue.InRange]
    unfold VectorValue.canonical
    split
    · exact h
    · exact h
  | .point value, h => by
    rw [PropertyValue.InRange] at h
    exact h
  | .float _, _ => trivial
  | .boolean _, h | .integer _, h | .string _, h | .date _, h | .localTime _, h
  | .time _ _, h | .localDateTime _ _, h | .zonedDateTime _, h | .duration _ _ _ _, h
  | .uuid _, h => h

theorem allInRange_canonical : ∀ values : List PropertyValue, AllInRange values →
    AllInRange (canonicalList values)
  | [], _ => trivial
  | value :: rest, h => by
    rw [canonicalList, AllInRange]
    exact ⟨inRange_canonical value h.1, allInRange_canonical rest h.2⟩

end

theorem canonical_canonical (hrange : v.InRange) (h : v.canonicalBytes = .ok bytes) :
    v.canonical.canonical = v.canonical := by
  have hread := fromCanonicalBytes_canonicalBytes v hrange h
  have hagain := fromCanonicalBytes_canonicalBytes v.canonical (inRange_canonical v hrange)
    (by rw [canonicalBytes_canonical, h])
  rw [hread] at hagain
  exact (Except.ok.inj hagain).symm

/-- **The codec of canonical values.** What the encoder writes for a value is accepted and comes
    back as the value in canonical form, which is the value itself exactly when its NaNs have the
    bits the encoder writes; accepted bytes are the encoding of the value they decode to; bytes
    behind an encoding are refused, and so is every proper beginning of it. -/
theorem valueCodec :
    (∀ (v : PropertyValue) (bytes : Bytes), v.InRange → v.canonicalBytes = .ok bytes →
      fromCanonicalBytes bytes = .ok v.canonical ∧ (v.canonical = v ↔ v.PlainNans)) ∧
    (∀ (bytes : Bytes) (v : PropertyValue), fromCanonicalBytes bytes = .ok v →
      v.canonicalBytes = .ok bytes) ∧
    (∀ (bytes extra : Bytes) (v : PropertyValue), v.canonicalBytes = .ok bytes → extra ≠ [] →
      ∃ e, fromCanonicalBytes (bytes ++ extra) = .error e) ∧
    (∀ (bytes start : Bytes) (v : PropertyValue), v.canonicalBytes = .ok bytes →
      start <+: bytes → start ≠ bytes →
      ∃ e, fromCanonicalBytes start = .error e) := by
  refine ⟨fun v bytes hrange h => ⟨?_, ?_⟩, fun bytes v h => ?_, fun bytes extra v h hextra => ?_,
    fun bytes start v h hstart hne => ?_⟩
  · exact fromCanonicalBytes_canonicalBytes v hrange h
  · exact canonical_eq_self v h
  · exact canonicalBytes_of_fromCanonicalBytes h
  · exact ⟨_, fromCanonicalBytes_extended h hextra⟩
  · cases haccepted : fromCanonicalBytes start with
    | error e => exact ⟨e, rfl⟩
    | ok w => exact absurd (fromCanonicalBytes_shortened h hstart haccepted) hne

/-- A list of an integer and a negative zero comes back as it is. -/
theorem valueCodec_list : ∃ bytes : Bytes,
    fromCanonicalBytes bytes = .ok (.list [.integer (-1), .float ⟨0x8000000000000000⟩]) := by
  have hrange : IsI64 (-1) := ⟨by decide, by decide⟩
  have hplain : (⟨0x8000000000000000⟩ : F64).isNan = false := by decide
  have hback := (valueCodec.1 (.list [.integer (-1), .float ⟨0x8000000000000000⟩]) _
    ⟨hrange, trivial, trivial⟩ (by
      rfl))
  have hsame := hback.2.mpr ⟨trivial, fun hnan => (by rw [hplain] at hnan; cases hnan), trivial⟩
  exact ⟨_, hback.1.trans (congrArg Except.ok hsame)⟩

/-- A NaN with a payload comes back as another NaN. -/
theorem nanPayload_lost :
    ∃ (v : PropertyValue) (bytes : Bytes), v.InRange ∧ v.canonicalBytes = .ok bytes ∧
      fromCanonicalBytes bytes ≠ .ok v := by
  have hbytes : ∃ bytes, (PropertyValue.float ⟨0x7ff8000000000001⟩).canonicalBytes = .ok bytes :=
    ⟨_, by rw [PropertyValue.canonicalBytes]; rfl⟩
  obtain ⟨bytes, hbytes⟩ := hbytes
  have hrange : (PropertyValue.float ⟨0x7ff8000000000001⟩).InRange := trivial
  refine ⟨_, bytes, hrange, hbytes, fun h => ?_⟩
  rw [fromCanonicalBytes_canonicalBytes _ hrange hbytes, Except.ok.injEq,
    canonical_eq_self _ hbytes] at h
  have hbits : (0x7ff8000000000001 : UInt64) = 0x7ff8000000000000 := h (by decide)
  exact absurd hbits (by decide)

end Lithograph.Storage
