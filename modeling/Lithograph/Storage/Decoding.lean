/-
  File:      Lithograph/Storage/Decoding.lean
  Subject:   The decoder primitives of LCE1 (`storage/encoding.rs`) and what they read back.

  The cursor into the bytes is the part that is left; a machine word has 64 bits.
-/
import Lithograph.Library.Reader
import Lithograph.Storage.Encoding

namespace Lithograph.Storage

open Library

abbrev ByteReader := Reader StorageError UInt8

/-- The reader stops here. -/
def corruptReader {α : Type} (message : String) : ByteReader α :=
  fun _ => .error (.corrupt message)

/-- A check a decoder makes. -/
def corruptWhen (condition : Bool) (message : String) : StorageResult Unit :=
  if condition then .error (.corrupt message) else .ok ()

@[simp] theorem corruptWhen_ok {condition : Bool} {message : String} {u : Unit} :
    corruptWhen condition message = .ok u ↔ condition = false := by
  cases condition <;> simp [corruptWhen]

/-! ## 1. The primitives -/

/-- The next byte. -/
def nextByte : ByteReader UInt8 := fun c =>
  match c.rest with
  | [] => .error (.corrupt "truncated LCE1 ULEB128")
  | byte :: rest => .ok (byte, ⟨c.offset + 1, rest⟩)

/-- One round of the loop of `read_uleb` and what follows it: `taken` bytes make up `value`, below
    `2 ^ shift`, so that `|=` adds. -/
def readUlebFrom : Nat → Nat → Nat → Nat → ByteReader Nat
  | 0, _, _, _ => corruptReader "LCE1 ULEB128 overflows u64"
  | rounds + 1, taken, shift, value => do
    let byte ← nextByte
    let payload := byte.toNat % 128
    let value' := value + payload * 2 ^ shift
    if shift = 63 ∧ 1 < payload then corruptReader "LCE1 ULEB128 overflows u64"
    else if 128 ≤ byte.toNat then readUlebFrom rounds (taken + 1) (shift + 7) value'
    else if taken + 1 ≠ ulebLen value' then
      corruptReader "LCE1 ULEB128 is not minimally encoded"
    else pure value'

/-- `read_uleb`: the shifts 0, 7, .., 63. -/
def readUleb : ByteReader Nat := readUlebFrom 10 0 0 0

def take (len : Nat) : ByteReader Bytes := fun c =>
  if c.rest.length < len then
    if 2 ^ 64 ≤ c.offset + len then .error (.corrupt "LCE1 field length overflow")
    else .error (.corrupt "truncated LCE1 field")
  else .ok (c.rest.take len, ⟨c.offset + len, c.rest.drop len⟩)

/-- One field of `BorrowedFields::next_field`: its length, then its bytes. -/
def nextField : ByteReader Bytes := do
  let len ← readUleb
  take len

/-- `borrowed_fields_after_count`: how many fields follow. -/
def fieldCount : ByteReader Nat := do
  let remaining ← readUleb
  let c ← get
  if c.rest.length < remaining then
    corruptReader "LCE1 field count exceeds remaining encoded bytes"
  else pure remaining

/-- `borrowed_record_fields`, up to the number of fields: the magic and the domain. -/
def recordHeader (expectedDomain : String) : ByteReader Unit := do
  let c ← get
  if c.rest.take 4 ≠ Text.utf8 "LCE1".toList then
    corruptReader "LCE1 record is missing its magic prefix"
  else do
    let _ ← take 4
    let domainLen ← readUleb
    let domain ← take domainLen
    if domain ≠ Text.utf8 expectedDomain.toList then
      corruptReader ("expected LCE1 " ++ expectedDomain ++ " record")
    else pure ()

/-- `BorrowedFields::finish`, once every field is read: nothing may follow. -/
def finish {α : Type} (read : ByteReader α) (bytes : Bytes) : StorageResult α := do
  let (value, c) ← read.run ⟨0, bytes⟩
  corruptWhen (!c.rest.isEmpty) "LCE1 fields have missing items or trailing bytes"
  pure value

def decodeUlebField (bytes : Bytes) : StorageResult Nat := do
  let (value, c) ← readUleb.run ⟨0, bytes⟩
  corruptWhen (!c.rest.isEmpty) "ULEB128 field has trailing bytes"
  pure value

def fixed (width : Nat) (bytes : Bytes) : StorageResult Bytes :=
  if bytes.length = width then .ok bytes
  else .error (.corrupt ("expected fixed-width LCE1 field of " ++ toString width ++ " bytes"))

/-- The signed number of `bits` bits. -/
def signed (bits n : Nat) : Int := if n < 2 ^ (bits - 1) then n else n - 2 ^ bits

def decodeI64 (bytes : Bytes) : StorageResult Int := do
  let bytes ← fixed 8 bytes
  pure (signed 64 (leNat bytes))

def decodeI32 (bytes : Bytes) : StorageResult Int := do
  let bytes ← fixed 4 bytes
  pure (signed 32 (leNat bytes))

def decodeU64 (bytes : Bytes) : StorageResult Nat := do
  let bytes ← fixed 8 bytes
  pure (leNat bytes)

def decodeU32 (bytes : Bytes) : StorageResult Nat := do
  let bytes ← fixed 4 bytes
  pure (leNat bytes)

/-! ## 2. Machine numbers come back -/

theorem leBytes_length : ∀ (width n : Nat), (leBytes width n).length = width
  | 0, _ => rfl
  | width + 1, n => by rw [leBytes, List.length_cons, leBytes_length width]

/-- **A number comes back from its bytes.** -/
theorem leNat_leBytes : ∀ {width n : Nat}, n < 256 ^ width → leNat (leBytes width n) = n
  | 0, n, h => by
    rw [leBytes, leNat]
    omega
  | width + 1, n, h => by
    have hdiv : n / 256 < 256 ^ width := by
      rw [Nat.div_lt_iff_lt_mul (by decide), ← Nat.pow_succ]
      exact h
    rw [leBytes, leNat, leNat_leBytes hdiv, UInt8.toNat_ofNat']
    omega

variable {value : Int} {α : Type} {domain : String} {bytes : Bytes} {fields : List Bytes}

theorem signed_residue {bits : Nat} (hbits : 0 < bits) (hlow : -2 ^ (bits - 1) ≤ value)
    (hhigh : value < 2 ^ (bits - 1)) : signed bits (value % 2 ^ bits).toNat = value := by
  obtain ⟨k, rfl⟩ : ∃ k, bits = k + 1 := ⟨bits - 1, by omega⟩
  simp only [Nat.add_sub_cancel] at hlow hhigh
  unfold signed
  simp only [Nat.add_sub_cancel]
  have hcast : ((2 ^ k : Nat) : Int) = 2 ^ k := Int.natCast_pow 2 k
  by_cases hv : 0 ≤ value
  · have hmod : value % 2 ^ (k + 1) = value := Int.emod_eq_of_lt hv (by omega)
    rw [hmod, if_pos (by omega), Int.toNat_of_nonneg hv]
  · have hmod : value % 2 ^ (k + 1) = value + 2 ^ (k + 1) := by
      rw [← Int.add_emod_right, Int.emod_eq_of_lt (by omega) (by omega)]
    rw [hmod, if_neg (by omega), Int.toNat_of_nonneg (by omega)]
    omega

theorem fixed_leBytes (width n : Nat) : fixed width (leBytes width n) = .ok (leBytes width n) :=
  if_pos (leBytes_length width n)

/-- A signed number of 64 bits. -/
def IsI64 (value : Int) : Prop := -2 ^ 63 ≤ value ∧ value < 2 ^ 63

/-- A signed number of 32 bits. -/
def IsI32 (value : Int) : Prop := -2 ^ 31 ≤ value ∧ value < 2 ^ 31

theorem decodeI64_i64Bytes (h : IsI64 value) : decodeI64 (i64Bytes value) = .ok value := by
  unfold decodeI64 i64Bytes
  have hlt : (value % 2 ^ 64).toNat < 256 ^ 8 := by omega
  rw [fixed_leBytes, ok_bind, leNat_leBytes hlt, signed_residue (by decide) h.1 h.2]
  rfl

theorem decodeI32_i32Bytes (h : IsI32 value) : decodeI32 (i32Bytes value) = .ok value := by
  unfold decodeI32 i32Bytes
  have hlt : (value % 2 ^ 32).toNat < 256 ^ 4 := by omega
  rw [fixed_leBytes, ok_bind, leNat_leBytes hlt, signed_residue (by decide) h.1 h.2]
  rfl

theorem decodeU64_u64Bytes {value : Nat} (h : value < 2 ^ 64) :
    decodeU64 (u64Bytes value) = .ok value := by
  unfold decodeU64 u64Bytes
  rw [fixed_leBytes, ok_bind, leNat_leBytes (by omega)]
  rfl

theorem decodeU32_u32Bytes {value : Nat} (h : value < 2 ^ 32) :
    decodeU32 (u32Bytes value) = .ok value := by
  unfold decodeU32 u32Bytes
  rw [fixed_leBytes, ok_bind, leNat_leBytes (by omega)]
  rfl

/-! ## 3. ULEB numbers come back -/

theorem nextByte_reads (byte : UInt8) : Reads nextByte byte [byte] := fun _ _ => rfl

theorem ulebLenFuel_small {fuel value : Nat} (h : value < 128) : ulebLenFuel fuel value = 1 := by
  cases fuel with
  | zero => rfl
  | succ fuel => rw [ulebLenFuel, if_pos h]

theorem ulebLenFuel_large {fuel value : Nat} (h : 128 ≤ value) :
    ulebLenFuel (fuel + 1) value = ulebLenFuel fuel (value / 128) + 1 := by
  rw [ulebLenFuel, if_neg (by omega)]

/-- The loop reads the digits of `m` on top of what it has. -/
theorem readUlebFrom_reads : ∀ {rounds taken shift value m : Nat}, shift + 7 * (rounds + 1) = 70 →
    m * 2 ^ shift < 2 ^ 64 →
    ulebLen (value + m * 2 ^ shift) = taken + ulebLenFuel rounds m →
    Reads (readUlebFrom (rounds + 1) taken shift value) (value + m * 2 ^ shift)
      (ulebFuel (rounds + 1) m) := by
  intro rounds
  induction rounds with
  | zero =>
    intro taken shift value m hshift hm hlen
    have hshift : shift = 63 := by omega
    subst hshift
    have hbyte : (UInt8.ofNat m).toNat = m := by rw [UInt8.toNat_ofNat']; omega
    have hlen' : taken + 1 = ulebLen (value + m * 2 ^ 63) := by
      rw [hlen, ulebLenFuel_small (by omega)]
    unfold readUlebFrom
    rw [ulebFuel, if_pos (by omega)]
    refine (nextByte_reads (UInt8.ofNat m)).bind (y := []) ?_
    simp only [hbyte, Nat.mod_eq_of_lt (show m < 128 by omega)]
    rw [if_neg (by omega), if_neg (by omega), if_neg (by omega)]
    exact reads_pure _
  | succ rounds ih =>
    intro taken shift value m hshift hm hlen
    unfold readUlebFrom
    by_cases hsmall : m < 128
    · have hbyte : (UInt8.ofNat m).toNat = m := by rw [UInt8.toNat_ofNat']; omega
      have hlen' : taken + 1 = ulebLen (value + m * 2 ^ shift) := by
        rw [hlen, ulebLenFuel_small hsmall]
      rw [ulebFuel, if_pos (by omega)]
      refine (nextByte_reads (UInt8.ofNat m)).bind (y := []) ?_
      simp only [hbyte, Nat.mod_eq_of_lt hsmall]
      rw [if_neg (by omega), if_neg (by omega), if_neg (by omega)]
      exact reads_pure _
    · have hbyte : (UInt8.ofNat (m % 128 + 128)).toNat = m % 128 + 128 := by
        rw [UInt8.toNat_ofNat']
        omega
      have hpow : 2 ^ (shift + 7) = 2 ^ shift * 128 := by rw [Nat.pow_add]
      have hsplit : m % 128 * 2 ^ shift + m / 128 * 2 ^ (shift + 7) = m * 2 ^ shift := by
        rw [hpow, Nat.mul_comm (2 ^ shift), ← Nat.mul_assoc, ← Nat.add_mul]
        congr 1
        omega
      have hvalue : value + m % 128 * 2 ^ shift + m / 128 * 2 ^ (shift + 7) =
          value + m * 2 ^ shift := by omega
      have hrest := @ih (taken + 1) (shift + 7) (value + m % 128 * 2 ^ shift) (m / 128)
        (by omega) (by omega)
        (by rw [hvalue, hlen, ulebLenFuel_large (by omega)]; omega)
      rw [hvalue] at hrest
      rw [ulebFuel, if_neg (by omega)]
      refine (nextByte_reads (UInt8.ofNat (m % 128 + 128))).bind ?_
      simp only [hbyte]
      rw [if_neg (by omega), if_pos (by omega)]
      rw [show (m % 128 + 128) % 128 = m % 128 by omega]
      exact hrest

/-- **A `u64` comes back from its ULEB bytes.** -/
theorem readUleb_reads {value : Nat} (h : value < 2 ^ 64) :
    Reads readUleb value (ulebBytes value) := by
  have hreads := @readUlebFrom_reads 9 0 0 0 value rfl (by omega)
    (by rw [Nat.pow_zero, Nat.mul_one, Nat.zero_add, Nat.zero_add]; rfl)
  rwa [Nat.pow_zero, Nat.mul_one, Nat.zero_add] at hreads

/-! ## 4. Fields and records come back -/

theorem ulebFuel_ne_nil (rounds value : Nat) : ulebFuel (rounds + 1) value ≠ [] := by
  rw [ulebFuel]
  split <;> exact List.cons_ne_nil _ _

theorem take_reads (x : Bytes) : Reads (take x.length) x x := by
  intro offset rest
  show take x.length ⟨offset, x ++ rest⟩ = _
  unfold take
  rw [if_neg (by simp), List.take_left, List.drop_left]

/-- A field in a record: its length in front of its bytes. -/
def fieldBytes (item : Bytes) : Bytes := ulebBytes item.length ++ item

theorem nextField_reads {item : Bytes} (h : item.length < 2 ^ 64) :
    Reads nextField item (fieldBytes item) := (readUleb_reads h).bind (take_reads item)

theorem length_le_flatMap_fieldBytes : ∀ items : List Bytes,
    items.length ≤ (items.flatMap fieldBytes).length
  | [] => Nat.le_refl 0
  | item :: items => by
    have hitem : 0 < (fieldBytes item).length := by
      unfold fieldBytes
      rw [List.length_append]
      have := List.length_pos_of_ne_nil (ulebFuel_ne_nil 9 item.length)
      exact Nat.add_pos_left this _
    have htail := length_le_flatMap_fieldBytes items
    rw [List.flatMap_cons, List.length_append, List.length_cons]
    omega

theorem encodeCounted_eq (items : List Bytes) :
    encodeCounted items = ulebBytes items.length ++ items.flatMap fieldBytes := rfl

variable {items : List Bytes}

theorem fieldCount_counted (hcount : items.length < 2 ^ 64) (offset : Nat)
    (rest : Bytes) : fieldCount.run ⟨offset, encodeCounted items ++ rest⟩ =
      .ok (items.length,
        ⟨offset + (ulebBytes items.length).length, items.flatMap fieldBytes ++ rest⟩) := by
  have hcount' := readUleb_reads hcount offset (items.flatMap fieldBytes ++ rest)
  have henough : ¬ (items.flatMap fieldBytes ++ rest).length < items.length := by
    have := length_le_flatMap_fieldBytes items
    rw [List.length_append]
    omega
  unfold fieldCount
  rw [encodeCounted_eq, List.append_assoc, StateT.run_bind, hcount', ok_bind, StateT.run_bind]
  show StateT.run (if _ then _ else _) _ = _
  rw [if_neg henough]
  rfl

/-- **Counted parts come back.** -/
theorem counted_reads {next : Nat → ByteReader α} {a : α}
    (hcount : items.length < 2 ^ 64) (h : Reads (next items.length) a (items.flatMap fieldBytes)) :
    Reads (fieldCount >>= next) a (encodeCounted items) := by
  intro offset rest
  rw [StateT.run_bind, fieldCount_counted hcount, ok_bind,
    h (offset + (ulebBytes items.length).length) rest, encodeCounted_eq, List.length_append,
    Nat.add_assoc]

/-- The bytes in front of the fields of a record. -/
def headerBytes (domain : String) : Bytes :=
  Text.utf8 "LCE1".toList ++ ulebBytes (Text.utf8 domain.toList).length ++ Text.utf8 domain.toList

theorem record_eq (domain : String) (fields : List Bytes) :
    record domain fields = headerBytes domain ++ encodeCounted fields := rfl

theorem recordHeader_reads (h : (Text.utf8 domain.toList).length < 2 ^ 64) :
    Reads (recordHeader domain) () (headerBytes domain) := by
  intro offset rest
  have hmagic := take_reads (Text.utf8 "LCE1".toList)
  have hlen := readUleb_reads h
  have hname := take_reads (Text.utf8 domain.toList)
  have hdomain : Reads (do
      let domainLen ← readUleb
      let found ← take domainLen
      if found ≠ Text.utf8 domain.toList then
        corruptReader ("expected LCE1 " ++ domain ++ " record")
      else pure ()) () (ulebBytes (Text.utf8 domain.toList).length ++ Text.utf8 domain.toList) := by
    refine hlen.bind ?_
    have hcheck := hname.bind (k := fun found =>
      if found ≠ Text.utf8 domain.toList then
        corruptReader ("expected LCE1 " ++ domain ++ " record")
      else pure ()) (b := ()) (y := []) (by rw [if_neg (fun hne => hne rfl)]; exact reads_pure ())
    rwa [List.append_nil] at hcheck
  have hall := hmagic.bind (k := fun _ => _) hdomain
  unfold recordHeader
  rw [StateT.run_bind, StateT.run_get, pure_bind]
  have hrun := hall offset rest
  unfold headerBytes
  rw [List.append_assoc (Text.utf8 "LCE1".toList)]
  exact hrun

theorem finish_ok {read : ByteReader α} {a : α} (h : Reads read a bytes) :
    finish read bytes = .ok a := by
  unfold finish
  have hrun := h 0 []
  rw [List.append_nil] at hrun
  rw [hrun]
  rfl

theorem finish_extended {read : ByteReader α} {a : α} {extra : Bytes} (h : Reads read a bytes)
    (hextra : extra ≠ []) : finish read (bytes ++ extra) =
      .error (.corrupt "LCE1 fields have missing items or trailing bytes") := by
  unfold finish
  rw [h 0 extra, ok_bind]
  cases extra with
  | nil => exact absurd rfl hextra
  | cons b rest => rfl

/-! ## 5. Sizes the encoder lets through -/

theorem encodedFieldLen_ok {len field n : Nat} :
    encodedFieldLen len field = .ok n ↔ n = len + ulebLen field + field ∧ n < 2 ^ 64 := by
  unfold encodedFieldLen
  split
  · constructor
    · intro h
      cases h
    · omega
  · rw [Except.ok.injEq]
    omega

theorem length_ulebFuel : ∀ rounds value : Nat,
    (ulebFuel (rounds + 1) value).length = ulebLenFuel rounds value
  | 0, value => by
    unfold ulebFuel
    split <;> rfl
  | rounds + 1, value => by
    unfold ulebFuel
    split
    · rw [ulebLenFuel_small (by omega)]
      rfl
    · rw [List.length_cons, length_ulebFuel rounds, ulebLenFuel_large (by omega)]

theorem length_ulebBytes (value : Nat) : (ulebBytes value).length = ulebLen value :=
  length_ulebFuel 9 value

theorem length_fieldBytes (item : Bytes) :
    (fieldBytes item).length = ulebLen item.length + item.length := by
  unfold fieldBytes
  rw [List.length_append, length_ulebBytes]

theorem encodedFieldLen_fold : ∀ {fields : List Bytes} {start n : Nat},
    fields.foldlM (fun len field => encodedFieldLen len field.length) start = .ok n →
      n = start + (fields.flatMap fieldBytes).length ∧ (fields ≠ [] → n < 2 ^ 64)
  | [], start, n, h => by
    cases h
    exact ⟨rfl, fun hne => absurd rfl hne⟩
  | field :: fields, start, n, h => by
    obtain ⟨len, hlen, h⟩ := bind_eq_ok.mp h
    obtain ⟨rfl, hlt⟩ := encodedFieldLen_ok.mp hlen
    obtain ⟨hsum, hlast⟩ := encodedFieldLen_fold h
    refine ⟨?_, fun _ => ?_⟩
    · rw [List.flatMap_cons, List.length_append, length_fieldBytes]
      omega
    · cases fields with
      | nil =>
        cases h
        exact hlt
      | cons f rest => exact hlast (List.cons_ne_nil f rest)

theorem length_le_of_mem {f : Bytes} (h : f ∈ fields) :
    f.length ≤ (fields.flatMap fieldBytes).length := by
  induction fields with
  | nil => exact absurd h List.not_mem_nil
  | cons g fields ih =>
    rw [List.flatMap_cons, List.length_append, length_fieldBytes]
    rcases List.mem_cons.mp h with rfl | h
    · omega
    · have := ih h
      omega

/-- What a size check lets through has machine sizes. -/
structure Sized (fields : List Bytes) : Prop where
  count : fields.length < 2 ^ 64
  each : ∀ f ∈ fields, f.length < 2 ^ 64

theorem sized_of_fold {start n : Nat}
    (h : fields.foldlM (fun len field => encodedFieldLen len field.length) start = .ok n) :
    Sized fields := by
  obtain ⟨hsum, hlast⟩ := encodedFieldLen_fold h
  have hcount := length_le_flatMap_fieldBytes fields
  cases fields with
  | nil => exact ⟨Nat.two_pow_pos 64, fun f hf => absurd hf List.not_mem_nil⟩
  | cons f rest =>
    have hlt := hlast (List.cons_ne_nil f rest)
    refine ⟨by omega, fun g hg => ?_⟩
    have := length_le_of_mem hg
    omega

theorem recordChecked_ok (h : recordChecked domain fields = .ok bytes) :
    Sized fields ∧ bytes = record domain fields := by
  unfold recordChecked at h
  obtain ⟨n, hn, h⟩ := bind_eq_ok.mp h
  cases h
  exact ⟨sized_of_fold hn, rfl⟩

theorem encodedFieldLen_total : ∀ {fields : List Bytes} {start : Nat},
    start + (fields.flatMap fieldBytes).length < 2 ^ 64 →
      ∃ n, fields.foldlM (fun len field => encodedFieldLen len field.length) start = .ok n
  | [], start, _ => ⟨start, rfl⟩
  | field :: fields, start, h => by
    rw [List.flatMap_cons, List.length_append, length_fieldBytes] at h
    rw [List.foldlM_cons, encodedFieldLen_ok.mpr ⟨rfl, by omega⟩, ok_bind]
    exact encodedFieldLen_total (by omega)

theorem recordChecked_total (h : (record domain fields).length < 2 ^ 64) :
    recordChecked domain fields = .ok (record domain fields) := by
  have hmagic : (Text.utf8 "LCE1".toList).length = 4 := by decide
  rw [record_eq, encodeCounted_eq] at h
  unfold headerBytes at h
  simp only [List.length_append, length_ulebBytes, hmagic] at h
  obtain ⟨n, hn⟩ := @encodedFieldLen_total fields
    (4 + ulebLen (Text.utf8 domain.toList).length + (Text.utf8 domain.toList).length +
      ulebLen fields.length) (by omega)
  unfold recordChecked
  exact bind_eq_ok.mpr ⟨n, hn, rfl⟩

theorem recordChecked_length (hne : fields ≠ []) (h : recordChecked domain fields = .ok bytes) :
    bytes.length < 2 ^ 64 := by
  unfold recordChecked at h
  obtain ⟨n, hn, h⟩ := bind_eq_ok.mp h
  cases h
  obtain ⟨hsum, hlast⟩ := encodedFieldLen_fold hn
  have hlt := hlast hne
  have hmagic : (Text.utf8 "LCE1".toList).length = 4 := by decide
  rw [record_eq, encodeCounted_eq]
  unfold headerBytes
  simp only [List.length_append, length_ulebBytes, hmagic]
  omega

theorem encodeCountedChecked_ok {bytes : Bytes} (h : encodeCountedChecked items = .ok bytes) :
    Sized items ∧ bytes = encodeCounted items := by
  unfold encodeCountedChecked at h
  obtain ⟨n, hn, h⟩ := bind_eq_ok.mp h
  cases h
  exact ⟨sized_of_fold hn, rfl⟩

end Lithograph.Storage
