/-
  File:      Lithograph/Storage/ValueCodec.lean
  Subject:   Decoding canonical property values (`storage/value.rs`).

  The decoder builds the value and encodes it again: bytes that are not the encoding of what they
  decode to are refused.
-/
import Lithograph.Storage.Decoding
import Lithograph.Storage.PropertyValue

namespace Lithograph.Storage

open Library

/-! ## 1. The decoder -/

def borrowedValueFields (bytes : Bytes) : StorageResult (List Bytes) :=
  finish (do
    recordHeader "VALUE"
    let count ← fieldCount
    if count = 0 ∨ 5 < count then corruptReader "VALUE record has invalid field count"
    else times nextField count) bytes

/-- The type tag, `fields[0]`. -/
def tagOf (fields : List Bytes) : StorageResult UInt8 :=
  match fields.head? with
  | some [tag] => .ok tag
  | _ => .error (.corrupt "VALUE type tag must be one byte")

def expectedFieldCount (tag : UInt8) : StorageResult Nat :=
  match tag with
  | 1 | 2 | 3 | 4 | 5 | 6 | 7 | 14 => .ok 2
  | 8 | 9 => .ok 3
  | 10 | 12 | 13 => .ok 4
  | 11 => .ok 5
  | _ => .error (.corrupt ("unknown property type tag " ++ toString tag))

def field (fields : List Bytes) (index : Nat) : StorageResult Bytes :=
  match fields[index]? with
  | some bytes => .ok bytes
  | none => .error (.corrupt "VALUE record is missing a required field")

def oneByte (fields : List Bytes) (index : Nat) : StorageResult UInt8 := do
  match ← field fields index with
  | [byte] => pure byte
  | _ => .error (.corrupt "VALUE field must contain exactly one byte")

/-- `utf8_checked`: the chunks it reads end where characters do, so it reads the whole text. -/
def utf8Checked (bytes : Bytes) : StorageResult Text :=
  match bytes.toByteArray.utf8Decode? with
  | some chars => .ok chars.toList
  | none => .error (.corrupt "VALUE string is not valid UTF-8")

/-- The binary64 numbers in a payload, eight bytes each. -/
def coordinatesOf : Nat → Bytes → List F64
  | 0, _ => []
  | n + 1, bytes => ⟨UInt64.ofNat (leNat (bytes.take 8))⟩ :: coordinatesOf n (bytes.drop 8)

def decodePoint (fields : List Bytes) : StorageResult PropertyValue := do
  let crsField ← field fields 0
  let crs ← decodeI64 crsField
  let countField ← field fields 1
  let count ← decodeUlebField countField
  let bytes ← field fields 2
  corruptWhen (2 ^ 64 ≤ count * 8) "Point coordinate payload length overflows"
  corruptWhen (bytes.length ≠ count * 8) "Point coordinate payload has invalid length"
  pure (.point ⟨crs, coordinatesOf count bytes⟩)

/-- The coordinate type a tag stands for. -/
def coordinateTypeOf (tag : UInt8) : StorageResult VectorCoordinateType :=
  match tag with
  | 1 => .ok .i8
  | 2 => .ok .i16
  | 3 => .ok .i32
  | 4 => .ok .i64
  | 5 => .ok .f32
  | 6 => .ok .f64
  | value => .error (.corrupt ("unknown vector coordinate tag " ++ toString value))

def decodeVector (fields : List Bytes) : StorageResult PropertyValue := do
  let tag ← oneByte fields 0
  let coordinateType ← coordinateTypeOf tag
  let dimensionField ← field fields 1
  let dimension ← decodeUlebField dimensionField
  let bytes ← field fields 2
  corruptWhen (2 ^ 64 ≤ dimension * coordinateType.width)
    "Vector payload length overflows addressable size"
  corruptWhen (bytes.length ≠ dimension * coordinateType.width)
    "Vector payload length does not match dimension"
  pure (.vector ⟨coordinateType, dimension, bytes⟩)

def decodeUuid (fields : List Bytes) : StorageResult PropertyValue := do
  let bytes ← field fields 0
  corruptWhen (bytes.length ≠ 16) "UUID property must contain exactly 16 bytes"
  pure (.uuid bytes)

def decodeZonedDatetime (fields : List Bytes) : StorageResult PropertyValue := do
  let epochField ← field fields 0
  let epochSeconds ← decodeI64 epochField
  let nanosField ← field fields 1
  let nanoseconds ← decodeU32 nanosField
  let zoneField ← field fields 2
  let zoneId ← utf8Checked zoneField
  pure (.zonedDateTime ⟨epochSeconds, nanoseconds, zoneId⟩)

def decodeDuration (fields : List Bytes) : StorageResult PropertyValue := do
  let monthsField ← field fields 0
  let months ← decodeI64 monthsField
  let daysField ← field fields 1
  let days ← decodeI64 daysField
  let secondsField ← field fields 2
  let seconds ← decodeI64 secondsField
  let nanosField ← field fields 3
  let nanoseconds ← decodeI64 nanosField
  pure (.duration months days seconds nanoseconds)

def decodeTemporalValue (tag : UInt8) (fields : List Bytes) : StorageResult PropertyValue :=
  match tag with
  | 6 => do
    let days ← field fields 0
    let days ← decodeI64 days
    pure (.date days)
  | 7 => do
    let nanos ← field fields 0
    let nanos ← decodeU64 nanos
    pure (.localTime nanos)
  | 8 => do
    let nanos ← field fields 0
    let nanos ← decodeU64 nanos
    let offset ← field fields 1
    let offset ← decodeI32 offset
    pure (.time nanos offset)
  | 9 => do
    let day ← field fields 0
    let day ← decodeI64 day
    let nanos ← field fields 1
    let nanos ← decodeU64 nanos
    pure (.localDateTime day nanos)
  | 10 => decodeZonedDatetime fields
  | 11 => decodeDuration fields
  | _ => .error (.corrupt "invalid temporal property type tag")

def decodeSpecialValue (tag : UInt8) (fields : List Bytes) : StorageResult PropertyValue :=
  match tag with
  | 12 => decodePoint fields
  | 13 => decodeVector fields
  | 14 => decodeUuid fields
  | _ => .error (.corrupt "invalid special property type tag")

section Recursion

variable (decode : Bytes → StorageResult PropertyValue)

/-- One item of a list: a field, decoded where it is read. -/
def listItem : ByteReader PropertyValue := do
  let item ← nextField
  StateT.lift (decode item)

def decodeList (fields : List Bytes) : StorageResult PropertyValue := do
  let bytes ← field fields 0
  let values ← finish (do
    let count ← fieldCount
    times (listItem decode) count) bytes
  pure (.list values)

def decodeBasicValue (tag : UInt8) (fields : List Bytes) : StorageResult PropertyValue :=
  match tag with
  | 1 => do
    match ← oneByte fields 0 with
    | 0 => pure (.boolean false)
    | 1 => pure (.boolean true)
    | value => .error (.corrupt ("Boolean VALUE payload must be 0 or 1, found " ++ toString value))
  | 2 => do
    let value ← field fields 0
    let value ← decodeI64 value
    pure (.integer value)
  | 3 => do
    let bits ← field fields 0
    let bits ← decodeU64 bits
    pure (.float ⟨UInt64.ofNat bits⟩)
  | 4 => do
    let text ← field fields 0
    let text ← utf8Checked text
    pure (.string text)
  | 5 => decodeList decode fields
  | _ => .error (.corrupt "invalid basic property type tag")

def decodeValue (tag : UInt8) (fields : List Bytes) : StorageResult PropertyValue :=
  match tag with
  | 1 | 2 | 3 | 4 | 5 => decodeBasicValue decode tag fields
  | 6 | 7 | 8 | 9 | 10 | 11 => decodeTemporalValue tag fields
  | 12 | 13 | 14 => decodeSpecialValue tag fields
  | _ => .error (.corrupt ("unknown property type tag " ++ toString tag))

theorem decodeValue_date_fields (fields : List Bytes) :
    decodeValue decode 6 fields = (do
      let days ← field fields 0
      let days ← decodeI64 days
      pure (.date days)) := by
  simp only [decodeValue, decodeTemporalValue]

theorem decodeValue_integer_fields (fields : List Bytes) :
    decodeValue decode 2 fields = (do
      let value ← field fields 0
      let value ← decodeI64 value
      pure (.integer value)) := by
  simp only [decodeValue, decodeBasicValue]

/-- The body of `from_canonical_bytes`, over the decoder of the items of a list. -/
def decodeRecord (bytes : Bytes) : StorageResult PropertyValue := do
  let fields ← borrowedValueFields bytes
  let tag ← tagOf fields
  let expected ← expectedFieldCount tag
  corruptWhen (fields.length ≠ expected) ("VALUE type tag " ++ toString tag ++ " requires " ++
    toString expected ++ " field(s), found " ++ toString fields.length)
  let value ← decodeValue decode tag fields.tail
  let encoded ← value.canonicalBytes
  corruptWhen (encoded ≠ bytes) "VALUE record is not in canonical LCE1 form"
  pure value

end Recursion

/-- `from_canonical_bytes`, for items nested no deeper than `depth`. -/
def fromCanonicalBytesDepth : Nat → Bytes → StorageResult PropertyValue
  | 0, _ => .error (.corrupt "VALUE record is nested too deeply")
  | depth + 1, bytes => decodeRecord (fromCanonicalBytesDepth depth) bytes

/-- `from_canonical_bytes`: an item is shorter than the bytes it is in, so their number bounds the
    nesting. -/
def fromCanonicalBytes (bytes : Bytes) : StorageResult PropertyValue :=
  fromCanonicalBytesDepth (bytes.length + 1) bytes

/-! ## 2. The recursion of the source -/

theorem corruptReader_shrinks {α : Type} (message : String) :
    Shrinks (corruptReader message : ByteReader α) := by
  intro c a c' h
  cases h

theorem get_shrinks : Shrinks (get : ByteReader (Cursor UInt8)) := by
  intro c a c' h
  cases h
  exact Nat.le_refl _

variable {c c' : Cursor UInt8} {bytes : Bytes}

theorem nextByte_shorter {byte : UInt8} (h : nextByte.run c = .ok (byte, c')) :
    c'.rest.length < c.rest.length := by
  obtain ⟨offset, rest⟩ := c
  cases rest with
  | nil => cases h
  | cons b rest =>
    cases h
    exact Nat.lt_succ_self _

theorem readUlebFrom_shorter : ∀ {rounds taken shift value n : Nat} {c c' : Cursor UInt8},
    (readUlebFrom rounds taken shift value).run c = .ok (n, c') →
      c'.rest.length < c.rest.length := by
  intro rounds
  induction rounds with
  | zero =>
    intro taken shift value n c c' h
    cases h
  | succ rounds ih =>
    intro taken shift value n c c' h
    unfold readUlebFrom at h
    obtain ⟨byte, c₁, hbyte, h⟩ := run_bind_ok.mp h
    have hlt := nextByte_shorter hbyte
    dsimp only at h
    split at h
    · cases h
    · split at h
      · exact Nat.lt_trans (ih h) hlt
      · split at h
        · cases h
        · cases h
          exact hlt

theorem take_run {len : Nat} {x : Bytes} (h : (take len).run c = .ok (x, c')) :
    x.length + c'.rest.length = c.rest.length := by
  have h : take len c = .ok (x, c') := h
  unfold take at h
  split at h
  · split at h <;> cases h
  · cases h
    rw [List.length_take, List.length_drop]
    omega

theorem nextField_shorter {item : Bytes} (h : nextField.run c = .ok (item, c')) :
    item.length + c'.rest.length < c.rest.length := by
  obtain ⟨len, c₁, hlen, htake⟩ := run_bind_ok.mp h
  have hlt := readUlebFrom_shorter hlen
  have heq := take_run htake
  omega

theorem readUleb_shrinks : Shrinks readUleb :=
  fun _ _ _ h => Nat.le_of_lt (readUlebFrom_shorter h)

theorem take_shrinks (len : Nat) : Shrinks (take len) := by
  intro c x c' h
  have := take_run h
  omega

theorem fieldCount_shrinks : Shrinks fieldCount := by
  refine readUleb_shrinks.bind fun remaining => get_shrinks.bind fun c => ?_
  split
  · exact corruptReader_shrinks _
  · exact shrinks_pure _

theorem recordHeader_shrinks (domain : String) : Shrinks (recordHeader domain) := by
  refine get_shrinks.bind fun c => ?_
  split
  · exact corruptReader_shrinks _
  · refine (take_shrinks 4).bind fun _ => readUleb_shrinks.bind fun len =>
      (take_shrinks len).bind fun name => ?_
    split
    · exact corruptReader_shrinks _
    · exact shrinks_pure _

theorem times_nextField_shorter : ∀ {n : Nat} {c c' : Cursor UInt8} {items : List Bytes},
    (times nextField n).run c = .ok (items, c') → ∀ f ∈ items, f.length < c.rest.length := by
  intro n
  induction n with
  | zero =>
    intro c c' items h f hf
    cases h
    exact absurd hf List.not_mem_nil
  | succ n ih =>
    intro c c' items h f hf
    unfold times at h
    obtain ⟨item, c₁, hitem, h⟩ := run_bind_ok.mp h
    obtain ⟨rest, c₂, hrest, h⟩ := run_bind_ok.mp h
    cases h
    have hlt := nextField_shorter hitem
    rcases List.mem_cons.mp hf with rfl | hf
    · omega
    · have := ih hrest f hf
      omega

theorem finish_run {α : Type} {read : ByteReader α} {a : α} (h : finish read bytes = .ok a) :
    ∃ c, read.run ⟨0, bytes⟩ = .ok (a, c) := by
  unfold finish at h
  obtain ⟨⟨value, c⟩, hread, h⟩ := bind_eq_ok.mp h
  obtain ⟨_, _, h⟩ := bind_eq_ok.mp h
  cases h
  exact ⟨c, hread⟩

theorem borrowedValueFields_shorter {fields : List Bytes}
    (h : borrowedValueFields bytes = .ok fields) : ∀ f ∈ fields, f.length < bytes.length := by
  intro f hf
  obtain ⟨c, h⟩ := finish_run h
  obtain ⟨_, c₁, hheader, h⟩ := run_bind_ok.mp h
  obtain ⟨count, c₂, hcount, h⟩ := run_bind_ok.mp h
  have h₁ : c₁.rest.length ≤ bytes.length := recordHeader_shrinks _ _ _ _ hheader
  have h₂ := fieldCount_shrinks _ _ _ hcount
  split at h
  · cases h
  · have := times_nextField_shorter h f hf
    omega

theorem listItem_run {decode : Bytes → StorageResult PropertyValue}
    {r : PropertyValue × Cursor UInt8} (h : (listItem decode).run c = .ok r) :
    r.2.rest.length < c.rest.length := by
  obtain ⟨value, c'⟩ := r
  obtain ⟨item, c₁, hnext, hlift⟩ := run_bind_ok.mp h
  obtain ⟨value', hvalue, hpure⟩ := bind_eq_ok.mp hlift
  cases hpure
  have := nextField_shorter hnext
  show c'.rest.length < c.rest.length
  omega

section Agreement

variable {decode decode' : Bytes → StorageResult PropertyValue} {size : Nat}

theorem listItem_congr (hagree : ∀ item : Bytes, item.length < size → decode item = decode' item)
    (hc : c.rest.length ≤ size) : (listItem decode).run c = (listItem decode').run c := by
  unfold listItem
  rw [StateT.run_bind, StateT.run_bind]
  cases hread : nextField.run c with
  | error e => rw [error_bind, error_bind]
  | ok r =>
    have hlt := nextField_shorter hread
    rw [ok_bind, ok_bind, hagree r.1 (by omega)]

theorem times_listItem_succ {n : Nat} (hitem : (listItem decode).run c = (listItem decode').run c)
    (hrest : ∀ c' : Cursor UInt8, c'.rest.length < c.rest.length →
      (times (listItem decode) n).run c' = (times (listItem decode') n).run c') :
    (times (listItem decode) (n + 1)).run c = (times (listItem decode') (n + 1)).run c := by
  unfold times
  rw [StateT.run_bind, StateT.run_bind, hitem]
  cases hread : (listItem decode').run c with
  | error e => rw [error_bind, error_bind]
  | ok r => rw [ok_bind, ok_bind, StateT.run_bind, StateT.run_bind, hrest r.2 (listItem_run hread)]

theorem times_listItem_congr
    (hagree : ∀ item : Bytes, item.length < size → decode item = decode' item) :
    ∀ (n : Nat) (c : Cursor UInt8), c.rest.length ≤ size →
      (times (listItem decode) n).run c = (times (listItem decode') n).run c := by
  intro n
  induction n with
  | zero => exact fun _ _ => rfl
  | succ n ih =>
    intro c hc
    exact times_listItem_succ (listItem_congr hagree hc) fun c' hc' => ih c' (by omega)

theorem decodeList_congr {fields : List Bytes} (hshort : ∀ f ∈ fields, f.length < size)
    (hagree : ∀ item : Bytes, item.length < size → decode item = decode' item) :
    decodeList decode fields = decodeList decode' fields := by
  unfold decodeList field
  cases hget : fields[0]? with
  | none => rw [error_bind, error_bind]
  | some list =>
    have hlen := hshort list (List.mem_of_getElem? hget)
    have hrun : (fieldCount >>= times (listItem decode)).run ⟨0, list⟩ =
        (fieldCount >>= times (listItem decode')).run ⟨0, list⟩ := by
      rw [StateT.run_bind, StateT.run_bind]
      cases hcount : fieldCount.run ⟨0, list⟩ with
      | error e => rw [error_bind, error_bind]
      | ok r =>
        have hshrink : r.2.rest.length ≤ list.length := fieldCount_shrinks _ _ _ hcount
        exact times_listItem_congr (fun item hitem => hagree item hitem) r.1 r.2 (by omega)
    rw [ok_bind, ok_bind]
    unfold finish
    rw [hrun]

theorem decodeRecord_congr
    (hagree : ∀ item : Bytes, item.length < bytes.length → decode item = decode' item) :
    decodeRecord decode bytes = decodeRecord decode' bytes := by
  unfold decodeRecord
  cases hfields : borrowedValueFields bytes with
  | error e => rw [error_bind, error_bind]
  | ok fields =>
    have hshort := borrowedValueFields_shorter hfields
    have hlist : decodeList decode fields.tail = decodeList decode' fields.tail :=
      decodeList_congr (fun f hf => hshort f (List.mem_of_mem_tail hf)) hagree
    have hvalue : ∀ tag, decodeValue decode tag fields.tail =
        decodeValue decode' tag fields.tail := by
      intro tag
      unfold decodeValue decodeBasicValue
      rw [hlist]
    simp only [ok_bind, hvalue]

end Agreement

theorem fromCanonicalBytesDepth_enough : ∀ {depth : Nat} {bytes : Bytes}, bytes.length < depth →
    fromCanonicalBytesDepth depth bytes = fromCanonicalBytes bytes := by
  intro depth
  induction depth using Nat.strongRecOn with
  | ind depth ih =>
    intro bytes hdepth
    obtain ⟨depth, rfl⟩ : ∃ k, depth = k + 1 := ⟨depth - 1, by omega⟩
    unfold fromCanonicalBytes fromCanonicalBytesDepth
    refine decodeRecord_congr fun item hitem => ?_
    by_cases heq : depth = bytes.length
    · rw [heq]
    · rw [ih depth (Nat.lt_succ_self _) (by omega), ih bytes.length (by omega) hitem]

/-- **The decoder is the source's recursion**: items are decoded by the decoder itself. -/
theorem fromCanonicalBytes_eq (bytes : Bytes) :
    fromCanonicalBytes bytes = decodeRecord fromCanonicalBytes bytes := by
  conv_lhs => unfold fromCanonicalBytes fromCanonicalBytesDepth
  exact decodeRecord_congr fun item hitem => fromCanonicalBytesDepth_enough hitem

end Lithograph.Storage
