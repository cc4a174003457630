/-
  File:      Lithograph/Storage/PropertyColumns.lean
  Subject:   A property value as the columns of a row (`storage/property.rs`).

  A float is kept by its bits; the REAL column beside them keeps the number but may drop the sign of
  a zero (`RealColumn`).

  * `columnCodec`: an accepted row is the row of its value, except that of a local time with a
    negative number.
-/
import Lithograph.Storage.ValueRoundTrip

namespace Lithograph.Storage

open Library

/-! ## 1. Columns -/

/-- The columns that hold a value, each of them NULL where the value does not use it. -/
structure PropertyPayload where
  intValue : Option Int := none
  realValue : Option F64 := none
  textValue : Option Text := none
  blobValue : Option Bytes := none
  auxValue : Option Bytes := none

structure PropertyColumns extends PropertyPayload where
  typeTag : Int

/-- A zero, of either sign. -/
def F64.isZero (x : F64) : Bool := x.bits &&& 0x7fffffffffffffff == 0

/-- `==` of two binary64 numbers. -/
def F64.numericEq (a b : F64) : Bool :=
  !a.isNan && !b.isNan && (a.bits == b.bits || (a.isZero && b.isZero))

/-- A REAL column: what is read is the number that was written. -/
structure RealColumn where
  keep : F64 → F64
  keeps : ∀ x, x.isNan = false → (keep x).numericEq x = true

def checkedU64 (value : Nat) (name : String) : StorageResult Int :=
  if value < 2 ^ 63 then .ok value else .error (.corrupt (name ++ " exceeds INTEGER64"))

def checkedI64ToU64 (value : Int) (name : String) : StorageResult Nat :=
  if 0 ≤ value then .ok value.toNat else .error (.corrupt (name ++ " must not be negative"))

/-- `fixed`, of `storage/property.rs`. -/
def fixedColumn (width : Nat) (bytes : Bytes) (name : String) : StorageResult Bytes :=
  if bytes.length = width then .ok bytes
  else .error (.corrupt (name ++ " must contain exactly " ++ toString width ++ " bytes"))

namespace PropertyColumns

def fromValue (value : PropertyValue) : StorageResult PropertyColumns :=
  match value with
  | .boolean b => .ok { typeTag := 1, intValue := some (if b then 1 else 0) }
  | .integer i => .ok { typeTag := 2, intValue := some i }
  | .date days => .ok { typeTag := 6, intValue := some days }
  | .float x => .ok {
      typeTag := 3
      realValue := if x.isNan then none else some x
      auxValue := some (u64Bytes (canonicalF64Bits x)) }
  | .string t => .ok { typeTag := 4, textValue := some t }
  | .localTime nanos => do
      let nanos ← checkedU64 nanos "LocalTime nanoseconds"
      pure { typeTag := 7, intValue := some nanos }
  | .time nanos offset => do
      let nanos ← checkedU64 nanos "Time nanoseconds"
      pure { typeTag := 8, intValue := some nanos, auxValue := some (i32Bytes offset) }
  | .localDateTime day nanos => .ok {
      typeTag := 9, intValue := some day, auxValue := some (u64Bytes nanos) }
  | .zonedDateTime z => .ok {
      typeTag := 10
      intValue := some z.epochSeconds
      auxValue := some (u32Bytes z.nanoseconds ++ Text.utf8 z.zoneId) }
  | value => do
      let bytes ← value.canonicalBytes
      pure { typeTag := value.typeTag, blobValue := some bytes }

/-- What a SELECT answers for the columns an INSERT wrote. -/
def kept (real : RealColumn) (c : PropertyColumns) : PropertyColumns :=
  { c with realValue := c.realValue.map real.keep }

def onlyIntegerPayload (c : PropertyColumns) : Bool :=
  c.intValue.isSome && c.realValue.isNone && c.textValue.isNone && c.blobValue.isNone &&
    c.auxValue.isNone

def onlyFloatPayload (c : PropertyColumns) : Bool :=
  c.intValue.isNone && c.textValue.isNone && c.blobValue.isNone &&
    c.auxValue.any fun value => value.length == 8

def onlyTextPayload (c : PropertyColumns) : Bool :=
  c.intValue.isNone && c.realValue.isNone && c.textValue.isSome && c.blobValue.isNone &&
    c.auxValue.isNone

def onlyTemporalPayload (c : PropertyColumns) : Bool :=
  c.intValue.isSome && c.realValue.isNone && c.textValue.isNone && c.blobValue.isNone &&
    c.auxValue.isSome

def onlyBlobPayload (c : PropertyColumns) : Bool :=
  c.intValue.isNone && c.realValue.isNone && c.textValue.isNone && c.blobValue.isSome &&
    c.auxValue.isNone

def validateColumns (c : PropertyColumns) : StorageResult Unit :=
  let valid := match c.typeTag with
    | 1 | 2 | 6 | 7 => c.onlyIntegerPayload
    | 3 => c.onlyFloatPayload
    | 4 => c.onlyTextPayload
    | 8 | 9 | 10 => c.onlyTemporalPayload
    | 5 | 11 | 12 | 13 | 14 => c.onlyBlobPayload
    | _ => false
  corruptWhen (!valid) "property payload columns do not match its type tag"

/-- One column a value needs. -/
def required {α : Type} (value : Option α) (payload : String) : StorageResult α :=
  match value with
  | some value => .ok value
  | none => .error (.corrupt ("property is missing " ++ payload ++ " payload"))

def requiredInt (c : PropertyColumns) : StorageResult Int := required c.intValue "integer"
def requiredText (c : PropertyColumns) : StorageResult Text := required c.textValue "text"
def requiredAux (c : PropertyColumns) : StorageResult Bytes := required c.auxValue "auxiliary"

def booleanValue (c : PropertyColumns) : StorageResult PropertyValue := do
  match ← c.requiredInt with
  | 0 => pure (.boolean false)
  | 1 => pure (.boolean true)
  | value => .error (.corrupt ("Boolean property contains invalid integer payload " ++
      toString value))

/-- The checks of `float_value`: the REAL column says what the bits say. -/
def checkReal (real : Option F64) (value : F64) : StorageResult Unit :=
  if value.isNan then do
    corruptWhen real.isSome "canonical NaN property must not contain SQLite REAL payload"
    corruptWhen (value.bits != 0x7ff8000000000000)
      "Float NaN property does not use the canonical binary64 payload"
  else corruptWhen (!real.any fun r => r.numericEq value)
    "Float REAL payload does not match canonical numeric value"

def floatValue (c : PropertyColumns) : StorageResult PropertyValue := do
  let aux ← c.requiredAux
  let bits ← fixedColumn 8 aux "Float auxiliary payload"
  let value : F64 := ⟨UInt64.ofNat (leNat bits)⟩
  checkReal c.realValue value
  pure (.float value)

def timeValue (c : PropertyColumns) : StorageResult PropertyValue := do
  let aux ← c.requiredAux
  let offset ← fixedColumn 4 aux "Time offset payload"
  let int ← c.requiredInt
  let nanos ← checkedI64ToU64 int "Time nanoseconds"
  pure (.time nanos (signed 32 (leNat offset)))

def localDatetimeValue (c : PropertyColumns) : StorageResult PropertyValue := do
  let aux ← c.requiredAux
  let nanos ← fixedColumn 8 aux "LocalDateTime nanoseconds payload"
  let day ← c.requiredInt
  pure (.localDateTime day (leNat nanos))

/-- The zone of `zoned_datetime_value`. -/
def zoneText (bytes : Bytes) : StorageResult Text :=
  match bytes.toByteArray.utf8Decode? with
  | some chars => .ok chars.toList
  | none => .error (.corrupt "ZonedDateTime zone is not valid UTF-8")

def zonedDatetimeValue (c : PropertyColumns) : StorageResult PropertyValue := do
  let aux ← c.requiredAux
  corruptWhen (aux.length < 4) "ZonedDateTime auxiliary payload is truncated"
  let nanos ← fixedColumn 4 (aux.take 4) "ZonedDateTime nanoseconds"
  let zone ← zoneText (aux.drop 4)
  let epoch ← c.requiredInt
  pure (.zonedDateTime ⟨epoch, leNat nanos, zone⟩)

def complexValue (c : PropertyColumns) (expectedTag : Int) : StorageResult PropertyValue := do
  let blob ← required c.blobValue "canonical blob"
  let value ← fromCanonicalBytes blob
  corruptWhen ((value.typeTag : Int) != expectedTag)
    "property canonical blob type does not match type tag"
  pure value

def toValue (c : PropertyColumns) : StorageResult PropertyValue := do
  c.validateColumns
  match c.typeTag with
  | 1 => c.booleanValue
  | 2 => do
    let value ← c.requiredInt
    pure (.integer value)
  | 3 => c.floatValue
  | 4 => do
    let value ← c.requiredText
    pure (.string value)
  | 5 => c.complexValue 5
  | 6 => do
    let value ← c.requiredInt
    pure (.date value)
  | 7 => do
    let value ← c.requiredInt
    pure (.localTime (value % 2 ^ 64).toNat)
  | 8 => c.timeValue
  | 9 => c.localDatetimeValue
  | 10 => c.zonedDatetimeValue
  | 11 => c.complexValue 11
  | 12 => c.complexValue 12
  | 13 => c.complexValue 13
  | 14 => c.complexValue 14
  | tag => .error (.corrupt ("property contains unknown type tag " ++ toString tag))

end PropertyColumns

variable {name : String} {i : Int} {bytes aux : Bytes} {v : PropertyValue} {c : PropertyColumns}

/-! ## 2. The round trip -/

namespace PropertyColumns

theorem typeTag_canonical (v : PropertyValue) : v.canonical.typeTag = v.typeTag := by
  cases v <;> rfl

theorem checkedU64_ok {value : Nat} :
    checkedU64 value name = .ok i ↔ value < 2 ^ 63 ∧ i = value := by
  unfold checkedU64
  split
  · rw [Except.ok.injEq]
    omega
  · constructor
    · intro h
      cases h
    · omega

theorem fixedColumn_ok {width : Nat} (h : bytes.length = width) :
    fixedColumn width bytes name = .ok bytes := if_pos h

theorem floatValue_columns (real : RealColumn) (x : F64) :
    (kept real { typeTag := 3
                 realValue := if x.isNan then none else some x
                 auxValue := some (u64Bytes (canonicalF64Bits x)) }).floatValue =
      .ok (.float x.canonical) := by
  have hwidth : (u64Bytes (canonicalF64Bits x)).length = 8 := leBytes_length _ _
  have hbits : leNat (u64Bytes (canonicalF64Bits x)) = canonicalF64Bits x :=
    leNat_leBytes (canonicalF64Bits_lt x)
  have hcheck : checkReal ((if x.isNan then none else some x).map real.keep) x.canonical =
      .ok () := by
    unfold checkReal
    cases hnan : x.isNan with
    | true =>
      have hcanonical : x.canonical = ⟨0x7ff8000000000000⟩ := by
        unfold F64.canonical canonicalF64Bits
        rw [hnan, if_pos rfl]
        rfl
      rw [hcanonical]
      rfl
    | false =>
      have heq := real.keeps x hnan
      rw [F64.canonical_of_not_nan hnan, hnan]
      simp only [Bool.false_eq_true, if_false, Option.map_some, Option.any_some, heq]
      rfl
  unfold floatValue requiredAux kept
  simp only [required, ok_bind, fixedColumn_ok hwidth, hbits]
  rw [show (⟨UInt64.ofNat (canonicalF64Bits x)⟩ : F64) = x.canonical from rfl, hcheck]
  rfl

theorem timeValue_columns (nanos : Nat) {offset : Int} (ho : IsI32 offset) :
    timeValue { typeTag := 8, intValue := some (nanos : Int), auxValue := some (i32Bytes offset) } =
      .ok (.time nanos offset) := by
  have hwidth : (i32Bytes offset).length = 4 := leBytes_length _ _
  have hoffset : signed 32 (leNat (i32Bytes offset)) = offset := by
    have hdecode := decodeI32_i32Bytes ho
    unfold decodeI32 at hdecode
    exact Except.ok.inj hdecode
  unfold timeValue requiredAux requiredInt
  simp only [required, ok_bind, fixedColumn_ok hwidth, checkedI64ToU64, hoffset]
  rfl

theorem localDatetimeValue_columns (day : Int) {nanos : Nat} (hn : nanos < 2 ^ 64) :
    localDatetimeValue { typeTag := 9, intValue := some day, auxValue := some (u64Bytes nanos) } =
      .ok (.localDateTime day nanos) := by
  have hwidth : (u64Bytes nanos).length = 8 := leBytes_length _ _
  have hnanos : leNat (u64Bytes nanos) = nanos := leNat_leBytes (by omega)
  unfold localDatetimeValue requiredAux requiredInt
  simp only [required, ok_bind, fixedColumn_ok hwidth, hnanos]
  rfl

theorem zonedDatetimeValue_columns {z : ZonedDateTimeValue} (hn : z.nanoseconds < 2 ^ 32) :
    zonedDatetimeValue { typeTag := 10
                         intValue := some z.epochSeconds
                         auxValue := some (u32Bytes z.nanoseconds ++ Text.utf8 z.zoneId) } =
      .ok (.zonedDateTime z) := by
  have hwidth : (u32Bytes z.nanoseconds).length = 4 := leBytes_length _ _
  have htake : (u32Bytes z.nanoseconds ++ Text.utf8 z.zoneId).take 4 = u32Bytes z.nanoseconds :=
    List.take_left' hwidth
  have hdrop : (u32Bytes z.nanoseconds ++ Text.utf8 z.zoneId).drop 4 = Text.utf8 z.zoneId :=
    List.drop_left' hwidth
  have hnanos : leNat (u32Bytes z.nanoseconds) = z.nanoseconds := leNat_leBytes (by omega)
  have hzone : zoneText (Text.utf8 z.zoneId) = .ok z.zoneId := by
    have hdecode : (Text.utf8 z.zoneId).toByteArray.utf8Decode? = some z.zoneId.toArray :=
      List.utf8Decode?_utf8Encode
    unfold zoneText
    rw [hdecode]
  have hlong : corruptWhen ((u32Bytes z.nanoseconds ++ Text.utf8 z.zoneId).length < 4)
      "ZonedDateTime auxiliary payload is truncated" = .ok () := by
    rw [corruptWhen_ok, List.length_append, hwidth]
    simp
  unfold zonedDatetimeValue requiredAux requiredInt
  simp only [required, ok_bind, hlong, htake, hdrop, fixedColumn_ok hwidth, hzone, hnanos]
  rfl

theorem complexValue_columns (hrange : v.InRange) (h : v.canonicalBytes = .ok bytes)
    (payload : PropertyPayload) (hblob : payload.blobValue = some bytes) :
    complexValue { toPropertyPayload := payload, typeTag := v.typeTag } v.typeTag =
      .ok v.canonical := by
  unfold complexValue
  simp only [hblob, required, ok_bind, fromCanonicalBytes_canonicalBytes v hrange h,
    typeTag_canonical]
  rw [show ((v.typeTag : Int) != v.typeTag) = false from bne_self_eq_false _]
  rfl

/-- **What a row was made from comes back**, in canonical form. -/
theorem toValue_fromValue (real : RealColumn) (hrange : v.InRange) (h : fromValue v = .ok c) :
    (c.kept real).toValue = .ok v.canonical := by
  cases v with
  | boolean b =>
    cases h
    cases b <;> rfl
  | integer i =>
    cases h
    rfl
  | float x =>
    cases h
    have hvalue := floatValue_columns real x
    unfold toValue
    exact hvalue
  | string t =>
    cases h
    rfl
  | date days =>
    cases h
    rfl
  | localTime nanos =>
    obtain ⟨int, hint, h⟩ := bind_eq_ok.mp h
    obtain ⟨hlt, rfl⟩ := checkedU64_ok.mp hint
    cases h
    have hnanos : ((nanos : Int) % 2 ^ 64).toNat = nanos := by omega
    exact congrArg (fun n => Except.ok (PropertyValue.localTime n)) hnanos
  | time nanos offset =>
    obtain ⟨int, hint, h⟩ := bind_eq_ok.mp h
    obtain ⟨hlt, rfl⟩ := checkedU64_ok.mp hint
    cases h
    exact timeValue_columns nanos hrange.2
  | localDateTime day nanos =>
    cases h
    exact localDatetimeValue_columns day hrange.2
  | zonedDateTime z =>
    cases h
    exact zonedDatetimeValue_columns hrange.2
  | list values | duration months days seconds nanos | point value | vector value | uuid value =>
    obtain ⟨bytes, hbytes, h⟩ := bind_eq_ok.mp h
    cases h
    exact complexValue_columns hrange hbytes { blobValue := some bytes } rfl

/-! ## 3. Rows that are accepted -/

/-- A row of a table: its integer column holds a signed number of 64 bits. -/
def Stored (c : PropertyColumns) : Prop := ∀ i, c.intValue = some i → IsI64 i

/-- `==` of two REAL columns. -/
def sameReal : Option F64 → Option F64 → Bool
  | none, none => true
  | some a, some b => a.numericEq b
  | _, _ => false

/-- `==` of two rows: numbers are compared as numbers. -/
structure Same (c c' : PropertyColumns) : Prop where
  typeTag : c.typeTag = c'.typeTag
  intValue : c.intValue = c'.intValue
  realValue : sameReal c.realValue c'.realValue = true
  textValue : c.textValue = c'.textValue
  blobValue : c.blobValue = c'.blobValue
  auxValue : c.auxValue = c'.auxValue

/-- Encoding the value again gives the row. -/
def Reencodes (c : PropertyColumns) (v : PropertyValue) : Prop :=
  ∃ c', fromValue v = .ok c' ∧ c'.Same c

/-- The row of a local time, with a negative number. -/
def NegativeLocalTime (c : PropertyColumns) : Prop :=
  c.typeTag = 7 ∧ c.onlyIntegerPayload = true ∧ ∃ i < 0, c.intValue = some i

theorem Same.refl_of (h : c.realValue = none) : c.Same c :=
  ⟨rfl, rfl, by rw [h]; rfl, rfl, rfl, rfl⟩

theorem fixedColumn_eq_ok {width : Nat} {out : Bytes} :
    fixedColumn width bytes name = .ok out ↔ bytes.length = width ∧ out = bytes := by
  unfold fixedColumn
  split
  · rename_i hwidth
    constructor
    · intro h
      cases h
      exact ⟨hwidth, rfl⟩
    · rintro ⟨_, rfl⟩
      rfl
  · rename_i hwidth
    constructor
    · intro h
      cases h
    · intro h
      exact absurd h.1 hwidth

theorem leBytes_leNat : ∀ bytes : Bytes, leBytes bytes.length (leNat bytes) = bytes
  | [] => rfl
  | b :: rest => by
    have hb : b.toNat < 256 := b.toNat_lt
    rw [List.length_cons, leBytes, leNat,
      show (b.toNat + 256 * leNat rest) / 256 = leNat rest by omega, leBytes_leNat rest]
    congr 1
    refine UInt8.toNat.inj ?_
    rw [UInt8.toNat_ofNat']
    omega

theorem residue_signed {bits n : Nat} (h : n < 2 ^ bits) :
    (signed bits n % 2 ^ bits).toNat = n := by
  have hcast : ((2 ^ bits : Nat) : Int) = 2 ^ bits := Int.natCast_pow 2 bits
  unfold signed
  split
  · rw [Int.emod_eq_of_lt (by omega) (by omega)]
    omega
  · rw [Int.sub_emod_right, Int.emod_eq_of_lt (by omega) (by omega)]
    omega

theorem utf8_zoneText {t : Text} (h : zoneText bytes = .ok t) : Text.utf8 t = bytes := by
  unfold zoneText at h
  split at h
  · rename_i chars hchars
    cases h
    have hsome : bytes.toByteArray.utf8Decode?.isSome = true := by
      rw [hchars]
      rfl
    have hencode := ByteArray.utf8Encode_get_utf8Decode? (h := hsome)
    have hget : bytes.toByteArray.utf8Decode?.get hsome = chars := by
      simp only [hchars, Option.get_some]
    rw [hget] at hencode
    have hdata := congrArg (fun b : ByteArray => b.data.toList) hencode
    simpa [List.utf8Encode, Text.utf8] using hdata
  · cases h

theorem validateColumns_ok (h : c.validateColumns = .ok ()) :
    ((c.typeTag = 1 ∨ c.typeTag = 2 ∨ c.typeTag = 6 ∨ c.typeTag = 7) ∧
        c.onlyIntegerPayload = true) ∨
      (c.typeTag = 3 ∧ c.onlyFloatPayload = true) ∨ (c.typeTag = 4 ∧ c.onlyTextPayload = true) ∨
      ((c.typeTag = 8 ∨ c.typeTag = 9 ∨ c.typeTag = 10) ∧ c.onlyTemporalPayload = true) ∨
      ((c.typeTag = 5 ∨ c.typeTag = 11 ∨ c.typeTag = 12 ∨ c.typeTag = 13 ∨ c.typeTag = 14) ∧
        c.onlyBlobPayload = true) := by
  unfold validateColumns at h
  split at h <;> simp_all

/-! The columns that each check leaves. -/

theorem onlyIntegerPayload_ok (h : c.onlyIntegerPayload = true) :
    ∃ i, c = { typeTag := c.typeTag, intValue := some i } := by
  obtain ⟨⟨int, real, text, blob, aux⟩, tag⟩ := c
  simp only [onlyIntegerPayload, Bool.and_eq_true, Option.isNone_iff_eq_none,
    Option.isSome_iff_exists] at h
  obtain ⟨⟨⟨⟨⟨i, rfl⟩, rfl⟩, rfl⟩, rfl⟩, rfl⟩ := h
  exact ⟨i, rfl⟩

theorem onlyFloatPayload_ok (h : c.onlyFloatPayload = true) : ∃ real aux, aux.length = 8 ∧
      c = { typeTag := c.typeTag, realValue := real, auxValue := some aux } := by
  obtain ⟨⟨int, real, text, blob, aux⟩, tag⟩ := c
  simp only [onlyFloatPayload, Bool.and_eq_true, Option.isNone_iff_eq_none, Option.any_eq_true_iff_get,
    beq_iff_eq] at h
  obtain ⟨⟨⟨rfl, rfl⟩, rfl⟩, haux⟩ := h
  cases aux with
  | none => simp at haux
  | some aux => exact ⟨real, aux, by simpa using haux, rfl⟩

theorem onlyTextPayload_ok (h : c.onlyTextPayload = true) :
    ∃ t, c = { typeTag := c.typeTag, textValue := some t } := by
  obtain ⟨⟨int, real, text, blob, aux⟩, tag⟩ := c
  simp only [onlyTextPayload, Bool.and_eq_true, Option.isNone_iff_eq_none,
    Option.isSome_iff_exists] at h
  obtain ⟨⟨⟨⟨rfl, rfl⟩, ⟨t, rfl⟩⟩, rfl⟩, rfl⟩ := h
  exact ⟨t, rfl⟩

theorem onlyTemporalPayload_ok (h : c.onlyTemporalPayload = true) :
    ∃ i aux, c = { typeTag := c.typeTag, intValue := some i, auxValue := some aux } := by
  obtain ⟨⟨int, real, text, blob, aux⟩, tag⟩ := c
  simp only [onlyTemporalPayload, Bool.and_eq_true, Option.isNone_iff_eq_none,
    Option.isSome_iff_exists] at h
  obtain ⟨⟨⟨⟨⟨i, rfl⟩, rfl⟩, rfl⟩, rfl⟩, ⟨aux, rfl⟩⟩ := h
  exact ⟨i, aux, rfl⟩

theorem onlyBlobPayload_ok (h : c.onlyBlobPayload = true) :
    ∃ blob, c = { typeTag := c.typeTag, blobValue := some blob } := by
  obtain ⟨⟨int, real, text, blob, aux⟩, tag⟩ := c
  simp only [onlyBlobPayload, Bool.and_eq_true, Option.isNone_iff_eq_none,
    Option.isSome_iff_exists] at h
  obtain ⟨⟨⟨⟨rfl, rfl⟩, rfl⟩, ⟨blob, rfl⟩⟩, rfl⟩ := h
  exact ⟨blob, rfl⟩

/-! Each family encodes again. -/

theorem reencodes_boolean (h : booleanValue { typeTag := 1, intValue := some i } = .ok v) :
    Reencodes { typeTag := 1, intValue := some i } v := by
  unfold booleanValue requiredInt at h
  simp only [required, ok_bind] at h
  split at h
  · cases h
    exact ⟨_, rfl, Same.refl_of rfl⟩
  · cases h
    exact ⟨_, rfl, Same.refl_of rfl⟩
  · cases h

theorem reencodes_float {real : Option F64} (haux : aux.length = 8)
    (h : floatValue { typeTag := 3, realValue := real, auxValue := some aux } = .ok v) :
    Reencodes { typeTag := 3, realValue := real, auxValue := some aux } v := by
  have hlt : leNat aux < 2 ^ 64 := by
    have := leNat_lt aux
    rw [haux] at this
    omega
  have hback : u64Bytes (leNat aux) = aux := by
    unfold u64Bytes
    rw [← haux]
    exact leBytes_leNat aux
  have hbits : (UInt64.ofNat (leNat aux)).toNat = leNat aux := by
    rw [UInt64.toNat_ofNat']
    omega
  unfold floatValue requiredAux at h
  simp only [required, ok_bind, fixedColumn_ok haux] at h
  obtain ⟨_, hreal, hvalue⟩ := bind_eq_ok.mp h
  cases hvalue
  refine ⟨_, rfl, rfl, rfl, ?_, rfl, rfl, ?_⟩
  · show sameReal (if F64.isNan _ then none else some _) real = true
    unfold checkReal at hreal
    split at hreal
    · rename_i hnan
      obtain ⟨_, hnone, _⟩ := bind_eq_ok.mp hreal
      have hnone : real.isSome = false := corruptWhen_ok.mp hnone
      rw [if_pos hnan, Option.isSome_eq_false_iff.mp hnone |> Option.isNone_iff_eq_none.mp]
      rfl
    · rename_i hnan
      have hany := corruptWhen_ok.mp hreal
      rw [if_neg hnan]
      cases real with
      | none => simp at hany
      | some r =>
        have hr : r.numericEq ⟨UInt64.ofNat (leNat aux)⟩ = true := by simpa using hany
        unfold sameReal
        unfold F64.numericEq at hr ⊢
        simp only [Bool.and_eq_true, Bool.or_eq_true, beq_iff_eq] at hr ⊢
        exact ⟨⟨hr.1.2, hr.1.1⟩, hr.2.imp Eq.symm And.symm⟩
  · show some (u64Bytes (canonicalF64Bits _)) = some aux
    unfold canonicalF64Bits
    unfold checkReal at hreal
    split at hreal
    · rename_i hnan
      obtain ⟨_, _, hplain⟩ := bind_eq_ok.mp hreal
      have hplain := corruptWhen_ok.mp hplain
      rw [bne_eq_false_iff_eq] at hplain
      have hplain : UInt64.ofNat (leNat aux) = 0x7ff8000000000000 := hplain
      rw [if_pos hnan, ← hback, ← hbits, hplain]
      rfl
    · rename_i hnan
      rw [if_neg hnan, hbits, hback]

theorem reencodes_time (hi : IsI64 i)
    (h : timeValue { typeTag := 8, intValue := some i, auxValue := some aux } = .ok v) :
    Reencodes { typeTag := 8, intValue := some i, auxValue := some aux } v := by
  unfold timeValue requiredAux requiredInt at h
  simp only [required, ok_bind] at h
  obtain ⟨offset, hoffset, hrest⟩ := bind_eq_ok.mp h
  obtain ⟨hwidth, rfl⟩ := fixedColumn_eq_ok.mp hoffset
  obtain ⟨nanos, hnanos, hvalue⟩ := bind_eq_ok.mp hrest
  cases hvalue
  unfold checkedI64ToU64 at hnanos
  split at hnanos
  · rename_i hnonneg
    cases hnanos
    have hlt : leNat offset < 2 ^ 32 := by
      have := leNat_lt offset
      rw [hwidth] at this
      omega
    have hback : i32Bytes (signed 32 (leNat offset)) = offset := by
      unfold i32Bytes
      rw [residue_signed hlt, ← hwidth]
      exact leBytes_leNat offset
    have hint : (i.toNat : Int) = i := Int.toNat_of_nonneg hnonneg
    have hsmall : i.toNat < 2 ^ 63 := by
      have := hi.2
      omega
    refine ⟨{ typeTag := 8, intValue := some i, auxValue := some offset }, ?_, Same.refl_of rfl⟩
    show (do
      let nanos ← checkedU64 i.toNat "Time nanoseconds"
      pure _) = _
    rw [checkedU64_ok.mpr ⟨hsmall, rfl⟩, ok_bind, hint, hback]
    rfl
  · cases hnanos

theorem reencodes_localDatetime
    (h : localDatetimeValue { typeTag := 9, intValue := some i, auxValue := some aux } = .ok v) :
    Reencodes { typeTag := 9, intValue := some i, auxValue := some aux } v := by
  unfold localDatetimeValue requiredAux requiredInt at h
  simp only [required, ok_bind] at h
  obtain ⟨nanos, hnanos, hvalue⟩ := bind_eq_ok.mp h
  obtain ⟨hwidth, rfl⟩ := fixedColumn_eq_ok.mp hnanos
  cases hvalue
  have hback : u64Bytes (leNat nanos) = nanos := by
    unfold u64Bytes
    rw [← hwidth]
    exact leBytes_leNat nanos
  refine ⟨_, rfl, rfl, rfl, rfl, rfl, rfl, ?_⟩
  exact congrArg some hback

theorem reencodes_zonedDatetime
    (h : zonedDatetimeValue { typeTag := 10, intValue := some i, auxValue := some aux } = .ok v) :
    Reencodes { typeTag := 10, intValue := some i, auxValue := some aux } v := by
  unfold zonedDatetimeValue requiredAux requiredInt at h
  simp only [required, ok_bind] at h
  obtain ⟨_, _, h⟩ := bind_eq_ok.mp h
  obtain ⟨nanos, hnanos, h⟩ := bind_eq_ok.mp h
  obtain ⟨hwidth, rfl⟩ := fixedColumn_eq_ok.mp hnanos
  obtain ⟨zone, hzone, h⟩ := bind_eq_ok.mp h
  cases h
  have hback : u32Bytes (leNat (aux.take 4)) = aux.take 4 := by
    unfold u32Bytes
    have := leBytes_leNat (aux.take 4)
    rw [hwidth] at this
    exact this
  refine ⟨_, rfl, rfl, rfl, rfl, rfl, rfl, ?_⟩
  show some (u32Bytes (leNat (aux.take 4)) ++ Text.utf8 zone) = some aux
  rw [hback, utf8_zoneText hzone, List.take_append_drop]

theorem reencodes_complex {tag : Int} {blob : Bytes}
    (htag : tag = 5 ∨ tag = 11 ∨ tag = 12 ∨ tag = 13 ∨ tag = 14)
    (h : complexValue { typeTag := tag, blobValue := some blob } tag = .ok v) :
    Reencodes { typeTag := tag, blobValue := some blob } v := by
  unfold complexValue at h
  simp only [required, ok_bind] at h
  obtain ⟨value, hvalue, h⟩ := bind_eq_ok.mp h
  obtain ⟨_, hsame, h⟩ := bind_eq_ok.mp h
  cases h
  have hbytes := canonicalBytes_of_fromCanonicalBytes hvalue
  have hsame : (v.typeTag : Int) = tag := by simpa using corruptWhen_ok.mp hsame
  refine ⟨{ typeTag := tag, blobValue := some blob }, ?_, Same.refl_of rfl⟩
  cases v with
  | list _ | duration _ _ _ _ | point _ | vector _ | uuid _ =>
    show (do
      let bytes ← PropertyValue.canonicalBytes _
      pure _) = _
    rw [hbytes, ok_bind, hsame]
    rfl
  | _ =>
    rw [← hsame] at htag
    simp [PropertyValue.typeTag] at htag

/-- **An accepted row is the row of its value**, unless it is that of a negative local time. -/
theorem reencodes_of_toValue (hstored : c.Stored) (hnegative : ¬ c.NegativeLocalTime)
    (h : c.toValue = .ok v) : c.Reencodes v := by
  obtain ⟨_, hvalid, hvalue⟩ := bind_eq_ok.mp h
  rcases validateColumns_ok hvalid with ⟨htag, hpayload⟩ | ⟨htag, hpayload⟩ | ⟨htag, hpayload⟩ |
      ⟨htag, hpayload⟩ | ⟨htag, hpayload⟩
  · obtain ⟨i, hc⟩ := onlyIntegerPayload_ok hpayload
    rw [hc] at hvalue hstored hnegative ⊢
    rcases htag with ht | ht | ht | ht
    · rw [ht] at hvalue ⊢
      exact reencodes_boolean hvalue
    · rw [ht] at hvalue ⊢
      cases hvalue
      exact ⟨_, rfl, Same.refl_of rfl⟩
    · rw [ht] at hvalue ⊢
      cases hvalue
      exact ⟨_, rfl, Same.refl_of rfl⟩
    · rw [ht] at hvalue hnegative ⊢
      cases hvalue
      have hi : IsI64 i := hstored i rfl
      have hnonneg : 0 ≤ i := Int.not_lt.mp fun hlt => hnegative ⟨rfl, rfl, i, hlt, rfl⟩
      have hnanos : (i % 2 ^ 64).toNat = i.toNat := by
        have := hi.2
        omega
      have hsmall : i.toNat < 2 ^ 63 := by
        have := hi.2
        omega
      refine ⟨{ typeTag := 7, intValue := some i }, ?_, Same.refl_of rfl⟩
      show (do
        let nanos ← checkedU64 (i % 2 ^ 64).toNat "LocalTime nanoseconds"
        pure _) = _
      rw [hnanos, checkedU64_ok.mpr ⟨hsmall, rfl⟩, ok_bind, Int.toNat_of_nonneg hnonneg]
      rfl
  · obtain ⟨real, aux, haux, hc⟩ := onlyFloatPayload_ok hpayload
    rw [hc, htag] at hvalue ⊢
    exact reencodes_float haux hvalue
  · obtain ⟨t, hc⟩ := onlyTextPayload_ok hpayload
    rw [hc, htag] at hvalue ⊢
    cases hvalue
    exact ⟨_, rfl, Same.refl_of rfl⟩
  · obtain ⟨i, aux, hc⟩ := onlyTemporalPayload_ok hpayload
    rw [hc] at hvalue hstored ⊢
    rcases htag with ht | ht | ht
    · rw [ht] at hvalue ⊢
      exact reencodes_time (hstored i rfl) hvalue
    · rw [ht] at hvalue ⊢
      exact reencodes_localDatetime hvalue
    · rw [ht] at hvalue ⊢
      exact reencodes_zonedDatetime hvalue
  · obtain ⟨blob, hc⟩ := onlyBlobPayload_ok hpayload
    rw [hc] at hvalue ⊢
    refine reencodes_complex htag ?_
    rcases htag with ht | ht | ht | ht | ht <;>
    · rw [ht] at hvalue ⊢
      exact hvalue

theorem negativeLocalTime_accepted (hstored : c.Stored) (h : c.NegativeLocalTime) :
    ∃ v, c.toValue = .ok v ∧ ∃ e, fromValue v = .error e := by
  obtain ⟨htag, hpayload, i, hneg, hint⟩ := h
  obtain ⟨j, hc⟩ := onlyIntegerPayload_ok hpayload
  rw [hc] at hint hstored
  cases hint
  have hi : IsI64 i := hstored i rfl
  rw [hc, htag]
  have hlarge : ¬ (i % 2 ^ 64).toNat < 2 ^ 63 := by
    have := hi.1
    omega
  refine ⟨.localTime (i % 2 ^ 64).toNat, rfl, .corrupt "LocalTime nanoseconds exceeds INTEGER64", ?_⟩
  show (do
    let nanos ← checkedU64 (i % 2 ^ 64).toNat "LocalTime nanoseconds"
    pure _) = _
  unfold checkedU64
  rw [if_neg hlarge]
  rfl

/-- **The codec of property columns.** The row of a value is read back as the value, with every NaN
    as the one that is stored; and a row of a table is read as values it is the row of exactly when
    it is not that of a local time with a negative number. -/
theorem columnCodec (c : PropertyColumns) :
    (∀ (real : RealColumn) (v : PropertyValue), v.InRange →
      fromValue v = .ok c → (c.kept real).toValue = .ok v.canonical) ∧
    (c.Stored → ((∀ v, c.toValue = .ok v → c.Reencodes v) ↔ ¬ c.NegativeLocalTime)) := by
  refine ⟨fun real v hrange h => toValue_fromValue real hrange h, fun hstored => ⟨?_, ?_⟩⟩
  · intro hall hnegative
    obtain ⟨v, hv, e, he⟩ := negativeLocalTime_accepted hstored hnegative
    obtain ⟨c', hc', _⟩ := hall v hv
    rw [he] at hc'
    cases hc'
  · exact fun hnegative v hv => reencodes_of_toValue hstored hnegative hv

/-- The day before the epoch has a row of its own. -/
theorem columnCodec_minusOne : Reencodes { typeTag := 6, intValue := some (-1) } (.date (-1)) :=
  ((columnCodec _).2 fun i hi => by
    cases hi
    exact ⟨by decide, by decide⟩).mpr (fun h => absurd h.1 (by decide)) _ rfl

/-- The row of the number -1 as a local time is read as a value that has no row. -/
theorem negativeLocalTime_reinterpreted : ∃ (c : PropertyColumns) (v : PropertyValue), c.Stored ∧
    c.intValue = some (-1) ∧ c.toValue = .ok v ∧ v = .localTime (2 ^ 64 - 1) ∧ ¬ c.Reencodes v := by
  refine ⟨{ typeTag := 7, intValue := some (-1) }, .localTime (2 ^ 64 - 1), fun i hi => ?_, rfl,
    rfl, rfl, fun h => ?_⟩
  · cases hi
    exact ⟨by decide, by decide⟩
  · obtain ⟨c', hc', _⟩ := h
    cases hc'

end PropertyColumns

end Lithograph.Storage
