/-
  File:      Lithograph/Cypher/ReadBack.lean
  Subject:   A stored property is read back as the value that was stored.

  A temporal value is read through its text: a date of the years -999 .. -1 has fewer than four
  digits of the year there, and an offset zone is only recognised in the form ±HH:MM.

  * `property_comes_back`: a stored value is read back exactly when it is `Readable`.
-/
import Lithograph.Cypher.Value

namespace Lithograph.Cypher

open Library Storage Query

/-! ## 1. Values as the program makes them -/

section Values

variable (zones : ZoneDatabase) (wrapLongitude : F64 → F64)

mutual

/-- The value was made by the constructors of its type. -/
def Value.Constructed : Value → Prop
  | .date value => ∃ text, DateValue.parse text = .ok value
  | .localTime value => ∃ text, LocalTimeValue.parse text = .ok value
  | .time value => ∃ text, TimeValue.parse text = .ok value
  | .localDateTime value => ∃ text, LocalDateTimeValue.parse text = .ok value
  | .zonedDateTime value => ∃ text, ZonedDateTimeValue.parse zones text value.zone = .ok value
  | .point value => ∃ crs coordinates, PointValue.new wrapLongitude crs coordinates = .ok value
  | .vector value => CypherVector.new value.coordinateType value.values = .ok value
  | .uuid value => value.bytes.length = 16
  | .list values => AllConstructed values
  | _ => True

def AllConstructed : List Value → Prop
  | [] => True
  | value :: rest => value.Constructed ∧ AllConstructed rest

end

end Values

/-- The day of a zoned date and time in its zone. -/
def ZonedDateTimeValue.localDay (value : ZonedDateTimeValue) : Int :=
  (value.instantNanoseconds + value.offsetSeconds * 1000000000) / nanosPerDay

/-- An offset zone is spelled ±HH:MM; the name of a zone is free. -/
def ZoneReadable (zone : Text) : Prop :=
  (stripSign zone).1.isSome = true → (fixedZoneOffset zone).isSome = true

instance (zone : Text) : Decidable (ZoneReadable zone) := by
  unfold ZoneReadable
  infer_instance

mutual

/-- What the reader of properties can read. -/
def Value.Readable : Value → Prop
  | .date value => ¬ ShortNegativeDay value.days
  | .localDateTime value => ¬ ShortNegativeDay value.days
  | .zonedDateTime value => ¬ ShortNegativeDay value.localDay ∧ ZoneReadable value.zone
  | .list values => AllReadable values
  | _ => True

def AllReadable : List Value → Prop
  | [] => True
  | value :: rest => value.Readable ∧ AllReadable rest

end

/-- No named zone starts with a sign. -/
def ZoneDatabase.Unsigned (zones : ZoneDatabase) : Prop :=
  ∀ zone, zones.known zone = true → (stripSign zone).1 = none

/-- A wrapped longitude is a finite number in the range of longitudes. -/
def WrapsLongitude (wrapLongitude : F64 → F64) : Prop :=
  ∀ x, isFinite x = true → isFinite (wrapLongitude x) = true ∧ withinLongitude (wrapLongitude x) = true

/-! ## 2. The borrowed reader -/

mutual

/-- **The borrowed reader reads what the owned reader reads.** -/
theorem borrowedProperty_eq (zones : ZoneDatabase) (wrapLongitude : F64 → F64) :
    ∀ value : PropertyValue,
      borrowedProperty zones wrapLongitude value = propertyValue zones wrapLongitude value
  | .list values => by
    unfold borrowedProperty propertyValue
    rw [borrowedProperties_eq zones wrapLongitude values]
  | .boolean _ => rfl
  | .integer _ => rfl
  | .float _ => rfl
  | .string _ => rfl
  | .date _ => rfl
  | .localTime _ => rfl
  | .time _ _ => rfl
  | .localDateTime _ _ => rfl
  | .zonedDateTime _ => rfl
  | .duration _ _ _ _ => rfl
  | .point _ => rfl
  | .vector _ => rfl
  | .uuid _ => rfl

theorem borrowedProperties_eq (zones : ZoneDatabase) (wrapLongitude : F64 → F64) :
    ∀ values : List PropertyValue,
      borrowedProperties zones wrapLongitude values = propertyValues zones wrapLongitude values
  | [] => by
    unfold borrowedProperties propertyValues
    rfl
  | value :: rest => by
    unfold borrowedProperties propertyValues
    rw [borrowedProperty_eq zones wrapLongitude value,
      borrowedProperties_eq zones wrapLongitude rest]

end

/-! ## 3. UUIDs -/

theorem hexDigit_spec {n : Nat} (h : n < 16) : hex (hexDigit n) = .ok n ∧ hexDigit n ≠ '-' ∧
    isAscii (hexDigit n) = true := by
  have hcases : n = 0 ∨ n = 1 ∨ n = 2 ∨ n = 3 ∨ n = 4 ∨ n = 5 ∨ n = 6 ∨ n = 7 ∨ n = 8 ∨ n = 9 ∨
      n = 10 ∨ n = 11 ∨ n = 12 ∨ n = 13 ∨ n = 14 ∨ n = 15 := by omega
  rcases hcases with rfl | rfl | rfl | rfl | rfl | rfl | rfl | rfl | rfl | rfl | rfl | rfl | rfl |
    rfl | rfl | rfl <;> exact ⟨rfl, by decide, rfl⟩

theorem mem_hexBytes {bytes : Bytes} {c : Char} (h : c ∈ bytes.flatMap hexByte) :
    c ≠ '-' ∧ isAscii c = true := by
  obtain ⟨byte, _, hc⟩ := List.mem_flatMap.mp h
  have hbyte := byte.toNat_lt
  unfold hexByte at hc
  rcases List.mem_cons.mp hc with rfl | hc
  · exact (hexDigit_spec (by omega)).2
  · rcases List.mem_singleton.mp hc with rfl
    exact (hexDigit_spec (by omega)).2

variable (bytes : Bytes)

theorem length_hexBytes : (bytes.flatMap hexByte).length = 2 * bytes.length := by
  induction bytes with
  | nil => rfl
  | cons byte rest ih =>
    rw [List.flatMap_cons, List.length_append, ih, List.length_cons]
    simp only [hexByte, List.length_cons, List.length_nil]
    omega

theorem filter_hexBytes : (bytes.flatMap hexByte).filter (· != '-') = bytes.flatMap hexByte := by
  rw [List.filter_eq_self]
  intro c hc
  simp [(mem_hexBytes hc).1]

theorem hexPairs_hexBytes : hexPairs (bytes.flatMap hexByte) = .ok bytes := by
  induction bytes with
  | nil => rfl
  | cons byte rest ih =>
    have hbyte := byte.toNat_lt
    have hhigh := (hexDigit_spec (show byte.toNat / 16 < 16 by omega)).1
    have hlow := (hexDigit_spec (show byte.toNat % 16 < 16 by omega)).1
    have hback : UInt8.ofNat (byte.toNat / 16 * 16 + byte.toNat % 16) = byte := by
      rw [show byte.toNat / 16 * 16 + byte.toNat % 16 = byte.toNat by omega, UInt8.ofNat_toNat]
    show hexPairs (hexDigit _ :: hexDigit _ :: (rest.flatMap hexByte)) = _
    unfold hexPairs
    rw [hhigh, hlow, ih]
    simp only [bind, Except.bind, pure, Except.pure, hback]

/-- **A UUID comes back from its text.** -/
theorem uuid_parse_text {bytes : Bytes} (h : bytes.length = 16) :
    UuidValue.parse (uuidText bytes) = .ok ⟨bytes⟩ := by
  obtain ⟨a, ha⟩ : ∃ a, a = (bytes.take 4).flatMap hexByte := ⟨_, rfl⟩
  obtain ⟨b, hb⟩ : ∃ b, b = ((bytes.drop 4).take 2).flatMap hexByte := ⟨_, rfl⟩
  obtain ⟨c, hc⟩ : ∃ c, c = ((bytes.drop 6).take 2).flatMap hexByte := ⟨_, rfl⟩
  obtain ⟨d, hd⟩ : ∃ d, d = ((bytes.drop 8).take 2).flatMap hexByte := ⟨_, rfl⟩
  obtain ⟨e, he⟩ : ∃ e, e = (bytes.drop 10).flatMap hexByte := ⟨_, rfl⟩
  have hla : a.length = 8 := by rw [ha, length_hexBytes, List.length_take]; omega
  have hlb : b.length = 4 := by
    rw [hb, length_hexBytes, List.length_take, List.length_drop]; omega
  have hlc : c.length = 4 := by
    rw [hc, length_hexBytes, List.length_take, List.length_drop]; omega
  have hld : d.length = 4 := by
    rw [hd, length_hexBytes, List.length_take, List.length_drop]; omega
  have hle : e.length = 12 := by rw [he, length_hexBytes, List.length_drop]; omega
  have htext : uuidText bytes = a ++ '-' :: (b ++ '-' :: (c ++ '-' :: (d ++ '-' :: e))) := by
    unfold uuidText
    rw [← ha, ← hb, ← hc, ← hd, ← he]
    simp [List.append_assoc]
  have hascii : ∀ x ∈ uuidText bytes, isAscii x = true := by
    intro x hx
    rw [htext] at hx
    simp only [List.mem_append, List.mem_cons, ha, hb, hc, hd, he] at hx
    rcases hx with hx | rfl | hx | rfl | hx | rfl | hx | rfl | hx
    all_goals first | rfl | exact (mem_hexBytes hx).2
  have hcompact : (uuidText bytes).filter (· != '-') = bytes.flatMap hexByte := by
    rw [htext]
    simp only [List.filter_append, List.filter_cons, bne_self_eq_false, Bool.false_eq_true, if_false]
    rw [ha, hb, hc, hd, he]
    simp only [filter_hexBytes, ← List.flatMap_append]
    have hcut : ∀ n, (bytes.drop n).take 2 ++ bytes.drop (n + 2) = bytes.drop n := fun n => by
      rw [← List.drop_drop, List.take_append_drop]
    rw [hcut 8, hcut 6, hcut 4, List.take_append_drop]
  have hhyphens : matchesHyphens (uuidText bytes) = true := by
    have hat : ∀ before after : Text, uuidText bytes = before ++ '-' :: after →
        (uuidText bytes)[before.length]? = some '-' := by
      intro before after e
      rw [e]
      simp
    have h8 := hat a _ htext
    have h13 := hat (a ++ '-' :: b) (c ++ '-' :: (d ++ '-' :: e)) (by rw [htext]; simp)
    have h18 := hat (a ++ '-' :: (b ++ '-' :: c)) (d ++ '-' :: e) (by rw [htext]; simp)
    have h23 := hat (a ++ '-' :: (b ++ '-' :: (c ++ '-' :: d))) e (by rw [htext]; simp)
    simp only [List.length_append, List.length_cons, hla, hlb, hlc, hld] at h8 h13 h18 h23
    unfold matchesHyphens
    simp [h8, h13, h18, h23]
  have hlength : (Text.utf8 (uuidText bytes)).length = 36 := by
    rw [utf8_length hascii, htext]
    simp only [List.length_append, List.length_cons]
    omega
  unfold UuidValue.parse
  simp only [hcompact, hhyphens, hlength, length_hexBytes, h, hexPairs_hexBytes, rejectWhen, bind,
    Except.bind, pure, Except.pure]
  rfl

/-! ## 4. Vectors and points -/

theorem leNat_leBytes (width n : Nat) : leNat (leBytes width n) = n % 256 ^ width := by
  induction width generalizing n with
  | zero => simp [leBytes, leNat, Nat.mod_one]
  | succ width ih =>
    unfold leBytes leNat
    rw [ih, UInt8.toNat_ofNat']
    have hsplit : n % 256 ^ (width + 1) = n % 256 + 256 * (n / 256 % 256 ^ width) := by
      rw [Nat.pow_succ, Nat.mul_comm (256 ^ width) 256, Nat.mod_mul]
    rw [hsplit]

theorem length_leBytes (width n : Nat) : (leBytes width n).length = width := by
  induction width generalizing n with
  | zero => rfl
  | succ width ih => simp [leBytes, ih]

theorem length_packCoordinates {w : Nat} (width : Nat) (values : List (BitVec w)) :
    (packCoordinates width values).length = values.length * width := by
  unfold packCoordinates
  induction values with
  | nil => simp
  | cons value rest ih =>
    rw [List.flatMap_cons, List.length_append, length_leBytes, ih, List.length_cons, Nat.succ_mul]
    omega

/-- **Packed coordinates are unpacked again.** -/
theorem unpack_pack (width : Nat) (hpos : 0 < width) (values : List (BitVec (8 * width))) :
    unpackCoordinates (8 * width) width (packCoordinates width values) = values := by
  unfold unpackCoordinates
  rw [length_packCoordinates, Nat.mul_div_cancel _ hpos]
  unfold packCoordinates
  induction values with
  | nil => rfl
  | cons value rest ih =>
    rw [List.flatMap_cons, List.length_cons]
    unfold wholeChunks
    have htake : (leBytes width value.toNat ++ rest.flatMap fun v => leBytes width v.toNat).take
        width = leBytes width value.toNat := by
      rw [List.take_append_of_le_length (Nat.le_of_eq (length_leBytes _ _).symm),
        List.take_of_length_le (Nat.le_of_eq (length_leBytes _ _))]
    have hdrop : (leBytes width value.toNat ++ rest.flatMap fun v => leBytes width v.toNat).drop
        width = rest.flatMap fun v => leBytes width v.toNat :=
      List.drop_left' (length_leBytes _ _)
    have hback : BitVec.ofNat (8 * width) (leNat (leBytes width value.toNat)) = value := by
      rw [leNat_leBytes, show (256 : Nat) = 2 ^ 8 from rfl, ← Nat.pow_mul,
        Nat.mod_eq_of_lt value.isLt]
      exact BitVec.eq_of_toNat_eq (by rw [BitVec.toNat_ofNat, Nat.mod_eq_of_lt value.isLt])
    rw [List.map_cons, htake, hdrop, hback, ih]

theorem unpackedValues_storageVector (vector : CypherVector) :
    unpackedValues (storageVector vector) = vector.values := by
  unfold unpackedValues storageVector VectorValues.coordinateType VectorValues.packed
  cases vector.values with
  | i8 values => exact congrArg VectorValues.i8 (unpack_pack 1 (by omega) values)
  | i16 values => exact congrArg VectorValues.i16 (unpack_pack 2 (by omega) values)
  | i32 values => exact congrArg VectorValues.i32 (unpack_pack 4 (by omega) values)
  | i64 values => exact congrArg VectorValues.i64 (unpack_pack 8 (by omega) values)
  | f32 values => exact congrArg VectorValues.f32 (unpack_pack 4 (by omega) values)
  | f64 values => exact congrArg VectorValues.f64 (unpack_pack 8 (by omega) values)

theorem vector_comes_back {vector : CypherVector}
    (h : CypherVector.new vector.coordinateType vector.values = .ok vector) :
    vectorValue (storageVector vector) = .ok (.vector vector) := by
  have htype := (CypherVector.new_ok h).1
  unfold vectorValue
  rw [unpackedValues_storageVector]
  show (do
    let vector ← ofValue (CypherVector.new vector.values.coordinateType vector.values)
    pure (Value.vector vector)) = _
  rw [htype, h]
  rfl

variable {wrapLongitude : F64 → F64} {crs zone : Text} {coordinates : List F64}

theorem PointValue.new_ok {point : PointValue}
    (h : PointValue.new wrapLongitude crs coordinates = .ok point) :
    ∃ dimension geographic, referenceSystem crs = some (point.crs, point.srid, dimension, geographic) ∧
      coordinates.length = dimension ∧ (∀ x ∈ coordinates, isFinite x = true) ∧
      (geographic = true → coordinates[1]?.any withinLatitude = true) ∧
      point.coordinates = wrapFirst wrapLongitude geographic coordinates := by
  unfold PointValue.new at h
  obtain ⟨⟨name, srid, dimension, geographic⟩, hsystem, h⟩ := bind_eq_ok.mp h
  obtain ⟨_, hlength, h⟩ := bind_eq_ok.mp h
  obtain ⟨_, hfinite, h⟩ := bind_eq_ok.mp h
  obtain ⟨_, hlatitude, h⟩ := bind_eq_ok.mp h
  cases h
  rw [required_ok] at hsystem
  rw [rejectWhen_ok] at hlength hfinite hlatitude
  refine ⟨dimension, geographic, hsystem, by simpa using hlength, fun x hx => ?_, fun hg => ?_, rfl⟩
  · rw [List.any_eq_false] at hfinite
    simpa using hfinite x hx
  · simpa [hg] using hlatitude

theorem referenceSystem_ok {name : Text} {srid dimension : Nat} {geographic : Bool}
    (h : referenceSystem crs = some (name, srid, dimension, geographic)) :
    referenceSystem name = some (name, srid, dimension, geographic) ∧
      ((srid = 4326 ∧ name = "wgs-84".toList) ∨ (srid = 4979 ∧ name = "wgs-84-3d".toList) ∨
        (srid = 7203 ∧ name = "cartesian".toList) ∨
        (srid = 9157 ∧ name = "cartesian-3d".toList)) := by
  unfold referenceSystem at h
  dsimp only at h
  split at h
  · rename_i hname
    rw [hname] at h
    cases h
    exact ⟨rfl, .inl ⟨rfl, rfl⟩⟩
  split at h
  · rename_i hname
    rw [hname] at h
    cases h
    exact ⟨rfl, .inr (.inl ⟨rfl, rfl⟩)⟩
  split at h
  · rename_i hname
    rw [hname] at h
    cases h
    exact ⟨rfl, .inr (.inr (.inl ⟨rfl, rfl⟩))⟩
  split at h
  · rename_i hname
    rw [hname] at h
    cases h
    exact ⟨rfl, .inr (.inr (.inr ⟨rfl, rfl⟩))⟩
  · cases h

/-- Wrapped coordinates pass the checks again. -/
theorem wrapFirst_stable (hwrap : WrapsLongitude wrapLongitude) (geographic : Bool)
    (hfinite : ∀ x ∈ coordinates, isFinite x = true) :
    (wrapFirst wrapLongitude geographic coordinates).length = coordinates.length ∧
      (∀ x ∈ wrapFirst wrapLongitude geographic coordinates, isFinite x = true) ∧
      (wrapFirst wrapLongitude geographic coordinates)[1]? = coordinates[1]? ∧
      wrapFirst wrapLongitude geographic (wrapFirst wrapLongitude geographic coordinates) =
        wrapFirst wrapLongitude geographic coordinates := by
  cases coordinates with
  | nil => exact ⟨rfl, hfinite, rfl, rfl⟩
  | cons longitude rest =>
    by_cases hout : (geographic && !withinLongitude longitude) = true
    · obtain ⟨hfin, hwithin⟩ := hwrap longitude (hfinite longitude (.head _))
      have hstep : wrapFirst wrapLongitude geographic (longitude :: rest) =
          wrapLongitude longitude :: rest := if_pos hout
      rw [hstep]
      refine ⟨rfl, fun x hx => ?_, rfl, ?_⟩
      · rcases List.mem_cons.mp hx with rfl | hx
        · exact hfin
        · exact hfinite x (.tail _ hx)
      · exact if_neg (by simp [hwithin])
    · have hstep : wrapFirst wrapLongitude geographic (longitude :: rest) = longitude :: rest :=
        if_neg hout
      rw [hstep]
      exact ⟨rfl, hfinite, rfl, hstep⟩

/-- **A point comes back.** -/
theorem point_comes_back (hwrap : WrapsLongitude wrapLongitude) {point : PointValue}
    (h : PointValue.new wrapLongitude crs coordinates = .ok point) :
    pointValue wrapLongitude ⟨point.srid, point.coordinates⟩ = .ok (.point point) := by
  obtain ⟨dimension, geographic, hsystem, hlength, hfinite, hlatitude, hcoordinates⟩ :=
    PointValue.new_ok h
  obtain ⟨hagain, hsrid⟩ := referenceSystem_ok hsystem
  obtain ⟨hlength', hfinite', hsecond, hstable⟩ :=
    wrapFirst_stable hwrap geographic hfinite
  rw [← hcoordinates] at hlength' hfinite' hsecond hstable
  have hnew : PointValue.new wrapLongitude point.crs point.coordinates = .ok point := by
    have hany : (point.coordinates.any fun x => !isFinite x) = false := by
      rw [List.any_eq_false]
      intro x hx
      simp [hfinite' x hx]
    have hlat : (geographic && !(point.coordinates[1]?.any withinLatitude)) = false := by
      rw [hsecond]
      cases hg : geographic with
      | false => rfl
      | true => simp [hlatitude hg]
    have hdim : (point.coordinates.length != dimension) = false := by
      rw [hlength', hlength]
      simp
    unfold PointValue.new
    simp only [hagain, required, hany, hlat, hdim, hstable, rejectWhen, bind, Except.bind, pure,
      Except.pure, Bool.false_eq_true, if_false]
  unfold pointValue
  rcases hsrid with ⟨hs, hn⟩ | ⟨hs, hn⟩ | ⟨hs, hn⟩ | ⟨hs, hn⟩
  all_goals
    rw [hs, ← hn]
    simp [hnew, ofValue, bind, Except.bind, pure, Except.pure]

/-! ## 5. Zones -/

theorem fixedZoneOffset_signed (h : (stripSign zone).1.isSome = true) :
    fixedZoneOffset zone = sixByteOffset zone := by
  unfold fixedZoneOffset
  rw [if_neg]
  rintro (rfl | rfl | rfl | rfl) <;> cases h

theorem sixByteOffset_some {offset : Int} (h : sixByteOffset zone = some offset) :
    ∃ sign h1 h2 m1 m2 hour minute, zone = [sign, h1, h2, ':', m1, m2] ∧
      (sign = '+' ∨ sign = '-') ∧ parseTwoSigned h1 h2 = some hour ∧
      parseTwoSigned m1 m2 = some minute ∧
      offset = (if sign = '-' then -1 else 1) * (hour * 3600 + minute * 60) := by
  unfold sixByteOffset at h
  split at h
  · rename_i sign h1 h2 m1 m2
    split at h
    · rename_i hsign
      simp only [Option.bind_eq_bind, Option.bind_eq_some_iff] at h
      obtain ⟨hour, hhour, minute, hminute, h⟩ := h
      cases h
      exact ⟨sign, h1, h2, m1, m2, hour, minute, rfl, hsign, hhour, hminute, rfl⟩
    · cases h
  · cases h

theorem parseTwoSigned_ne_colon {first second : Char} {n : Int}
    (h : parseTwoSigned first second = some n) : first ≠ ':' ∧ second ≠ ':' := by
  unfold parseTwoSigned at h
  constructor
  · rintro rfl
    split at h
    · cases h
    · split at h
      · rename_i hdigit
        cases hdigit
      · split at h
        · rename_i hplus
          cases hplus
        · split at h
          · rename_i hminus
            cases hminus
          · cases h
  · rintro rfl
    cases h

theorem parseTwoSigned_digits {first second : Char} (hfirst : isDigit first = true)
    (hsecond : isDigit second = true) :
    parseTwoSigned first second = some (number [first, second] : Int) := by
  unfold parseTwoSigned
  simp [hfirst, hsecond]

/-- **Both readers of ±HH:MM agree.** -/
theorem sixByteOffset_parseOffset {offset expected : Int}
    (hsix : sixByteOffset zone = some offset) (hparse : parseOffset zone = .ok expected) :
    offset = expected := by
  obtain ⟨sign, h1, h2, m1, m2, hour, minute, rfl, hsign, hhour, hminute, rfl⟩ :=
    sixByteOffset_some hsix
  obtain ⟨hh1, hh2⟩ := parseTwoSigned_ne_colon hhour
  obtain ⟨hm1, hm2⟩ := parseTwoSigned_ne_colon hminute
  have hstrip : stripSign [sign, h1, h2, ':', m1, m2] = (some sign, [h1, h2, ':', m1, m2]) := by
    rcases hsign with rfl | rfl <;> rfl
  have hparts : splitAll ':' [h1, h2, ':', m1, m2] = [[h1, h2], [m1, m2]] := by
    have hleft : ':' ∉ [h1, h2] := by simp [Ne.symm hh1, Ne.symm hh2]
    have hright : ':' ∉ [m1, m2] := by simp [Ne.symm hm1, Ne.symm hm2]
    have hcut := splitAll_append (b := [m1, m2]) hleft
    rw [splitAll_single hright] at hcut
    exact hcut
  unfold parseOffset at hparse
  split at hparse
  · cases hparse
  split at hparse
  · rename_i hz
    cases hz
  obtain ⟨factor, hfactor, hparse⟩ := bind_eq_ok.mp hparse
  obtain ⟨fields, hfields, hparse⟩ := bind_eq_ok.mp hparse
  obtain ⟨_, _, hparse⟩ := bind_eq_ok.mp hparse
  cases hparse
  rw [hstrip] at hfields
  unfold parseOffsetFields at hfields
  rw [if_pos (by simp), hparts] at hfields
  unfold parseOffsetParts at hfields
  obtain ⟨hours, hhours, hfields⟩ := bind_eq_ok.mp hfields
  obtain ⟨minutes, hminutes, hfields⟩ := bind_eq_ok.mp hfields
  cases hfields
  obtain ⟨_, hdigits, hnumber, _⟩ := parseTwoDigits_ok hhours
  obtain ⟨_, hdigits', hnumber', _⟩ := parseTwoDigits_ok hminutes
  rw [parseTwoSigned_digits (hdigits h1 (by simp)) (hdigits h2 (by simp)), hnumber] at hhour
  rw [parseTwoSigned_digits (hdigits' m1 (by simp)) (hdigits' m2 (by simp)), hnumber'] at hminute
  cases hhour
  cases hminute
  unfold parseOffsetSign at hfactor
  rcases hsign with rfl | rfl
  · cases hfactor
    simp
  · cases hfactor
    simp

/-- **The offset is found exactly when the zone can be read.** -/
theorem zoneOffsetAt_expected {zones : ZoneDatabase} (hunsigned : zones.Unsigned)
    {instant expected : Int} (h : expectedOffset zones zone instant = .ok expected) :
    (ZoneReadable zone → zoneOffsetAt zones zone (instant / 1000000000)
        (instant % 1000000000).toNat = .ok expected) ∧
      (¬ ZoneReadable zone → ∀ offset, zoneOffsetAt zones zone (instant / 1000000000)
        (instant % 1000000000).toNat ≠ .ok offset) := by
  unfold expectedOffset at h
  obtain ⟨fixed, hfixed, h⟩ := bind_eq_ok.mp h
  by_cases hsigned : (stripSign zone).1.isSome = true
  · -- the constructor reads every spelling of an offset, the reader one
    have hparse : parseOffset zone = .ok expected := by
      unfold validateZoneId at hfixed
      split at hfixed
      · rename_i hz
        rw [hz] at hsigned
        cases hsigned
      · cases hoffset : parseOffset zone with
        | error e =>
          rw [hoffset] at hfixed
          cases hfixed
        | ok offset =>
          rw [hoffset] at hfixed
          cases hfixed
          cases h
          rfl
    unfold ZoneReadable zoneOffsetAt
    cases hread : fixedZoneOffset zone with
    | some offset =>
      rw [fixedZoneOffset_signed hsigned] at hread
      refine ⟨fun _ => ?_, fun hn => absurd (fun _ => rfl) hn⟩
      rw [sixByteOffset_parseOffset hread hparse]
    | none =>
      refine ⟨fun hr => absurd (hr hsigned) (by simp), fun _ offset => ?_⟩
      have hunknown : zones.known zone = false := by
        cases hknown : zones.known zone with
        | false => rfl
        | true =>
          rw [hunsigned zone hknown] at hsigned
          cases hsigned
      rw [hunknown]
      simp
  · have hreadable : ZoneReadable zone := fun hs => absurd hs hsigned
    refine ⟨fun _ => ?_, fun hn => absurd hreadable hn⟩
    unfold validateZoneId at hfixed
    unfold zoneOffsetAt fixedZoneOffset
    split at hfixed
    · rename_i hz
      cases hfixed
      cases h
      rw [if_pos (.inl hz)]
    rename_i hz
    split at hfixed
    · rename_i hnamed
      cases hfixed
      cases h
      rw [if_pos (.inr hnamed)]
    · rename_i hnamed
      obtain ⟨_, _, hfixed⟩ := bind_eq_ok.mp hfixed
      obtain ⟨_, hknown, hfixed⟩ := bind_eq_ok.mp hfixed
      cases hfixed
      have hsix : sixByteOffset zone = none := by
        cases hs : sixByteOffset zone with
        | none => rfl
        | some offset =>
          obtain ⟨sign, h1, h2, m1, m2, _, _, rfl, hsign, _⟩ := sixByteOffset_some hs
          exact absurd (by rcases hsign with rfl | rfl <;> rfl) hsigned
      rw [if_neg (not_or.mpr ⟨hz, hnamed⟩), hsix]
      unfold namedZoneOffset at h
      obtain ⟨_, _, h⟩ := bind_eq_ok.mp h
      rw [required_ok] at h
      simp only [rejectWhen_ok, Bool.not_eq_false'] at hknown
      simp [hknown, h]

/-! ## 6. Dates and times in a zone -/

/-- **A date and time in a zone comes back exactly when its local day and its zone are read.** -/
theorem zonedDateTime_comes_back {zones : ZoneDatabase} (hunsigned : zones.Unsigned) {text : Text}
    {value : ZonedDateTimeValue} (h : ZonedDateTimeValue.parse zones text value.zone = .ok value) :
    ComesBack (zonedDatetimeValue zones ⟨value.instantNanoseconds / 1000000000,
        (value.instantNanoseconds % 1000000000).toNat, value.zone⟩) (.zonedDateTime value)
      (¬ ShortNegativeDay value.localDay ∧ ZoneReadable value.zone) := by
  unfold ZonedDateTimeValue.parse at h
  obtain ⟨parts, _, h⟩ := bind_eq_ok.mp h
  obtain ⟨date, hdate, h⟩ := bind_eq_ok.mp h
  obtain ⟨time, htime, h⟩ := bind_eq_ok.mp h
  obtain ⟨expected, hexpected, h⟩ := bind_eq_ok.mp h
  obtain ⟨_, hsame, h⟩ := bind_eq_ok.mp h
  obtain ⟨zone, hzone⟩ : ∃ zone, zone = value.zone := ⟨_, rfl⟩
  rw [← hzone] at hexpected h
  cases h
  simp only [rejectWhen_ok, bne_eq_false_iff_eq] at hsame
  subst hsame
  obtain ⟨hread, hunread⟩ := zoneOffsetAt_expected hunsigned hexpected
  have hback := date_comes_back hdate
  obtain ⟨hlt, hoffset, htext⟩ := time_parse_ok htime
  obtain ⟨year, month, day, hcivil, hlow, hhigh, hday, hdays⟩ := date_parse_ok hdate
  have hdateDays : date.days = daysFromCivil year month day := by rw [hdays]
  obtain ⟨hbelow, habove⟩ := daysFromCivil_bounds hcivil hlow hhigh
  obtain ⟨instant, hinstant⟩ : ∃ i, i = date.days * nanosPerDay + time.instantKey := ⟨_, rfl⟩
  rw [← hinstant] at hexpected hread hunread ⊢
  -- the local day and the time of the day are recovered from the instant
  have hlocalDay : ZonedDateTimeValue.localDay
      ⟨date.text ++ 'T' :: time.text, zone, instant, time.offsetSeconds⟩ = date.days := by
    unfold ZonedDateTimeValue.localDay
    unfold TimeValue.instantKey at hinstant
    unfold nanosPerDay at hinstant ⊢
    unfold dayNanoseconds at hlt
    dsimp only
    omega
  have hsplit : (instant / 1000000000 + time.offsetSeconds) / 86400 = date.days ∧
      ((instant / 1000000000 + time.offsetSeconds) % 86400).toNat * 1000000000 +
        (instant % 1000000000).toNat = time.localNanoseconds ∧
      -(2 ^ 63) ≤ instant / 1000000000 + time.offsetSeconds ∧
      instant / 1000000000 + time.offsetSeconds ≤ 2 ^ 63 - 1 := by
    unfold TimeValue.instantKey at hinstant
    unfold nanosPerDay at hinstant
    unfold dayNanoseconds at hlt
    unfold ValidOffset at hoffset
    refine ⟨?_, ?_, ?_, ?_⟩ <;> omega
  obtain ⟨hsplitDay, hsplitNanos, hfits, hfits'⟩ := hsplit
  have hrange : (decide (instant / 1000000000 + time.offsetSeconds < -(2 ^ 63)) ||
      decide (2 ^ 63 - 1 < instant / 1000000000 + time.offsetSeconds)) = false := by
    simp only [Bool.or_eq_false_iff, decide_eq_false_iff_not]
    omega
  have hcut : splitOnce 'T' (formatDateFromDays date.days ++ 'T' ::
      (formatLocalTime time.localNanoseconds ++ formatOffset time.offsetSeconds)) =
      some (formatDateFromDays date.days,
        formatLocalTime time.localNanoseconds ++ formatOffset time.offsetSeconds) := by
    rw [hdateDays]
    exact splitOnce_append (not_mem_formatDateFromDays hcivil hday)
  rw [hlocalDay]
  unfold zonedDatetimeValue
  refine comesBack_of ?_ fun back hok => ?_
  · rintro ⟨hlong, hzone⟩
    rw [hread hzone]
    simp only [bind, Except.bind, hrange, refuseWhen, Bool.false_eq_true, if_false, hsplitDay,
      hsplitNanos]
    unfold ZonedDateTimeValue.parse
    simp only [hcut, required, (hback date).mpr ⟨rfl, hlong⟩, time_parse_format hlt hoffset, bind,
      Except.bind]
    have hkey : date.days * nanosPerDay + TimeValue.instantKey
        ⟨formatLocalTime time.localNanoseconds ++ formatOffset time.offsetSeconds,
          time.localNanoseconds, time.offsetSeconds⟩ = instant := by
      rw [hinstant]
      rfl
    rw [hkey, hexpected]
    simp [rejectWhen, ofValue, pure, Except.pure, htext]
  · obtain ⟨offset, hzoneOffset, hok⟩ := bind_eq_ok.mp hok
    have hzone : ZoneReadable zone := by
      by_contra hn
      exact hunread hn offset hzoneOffset
    rw [hread hzone] at hzoneOffset
    cases hzoneOffset
    refine ⟨fun hshort => ?_, hzone⟩
    obtain ⟨_, _, hok⟩ := bind_eq_ok.mp hok
    obtain ⟨parsed, hparsed, _⟩ := bind_eq_ok.mp hok
    rw [ofValue_ok, hsplitDay, hsplitNanos] at hparsed
    unfold ZonedDateTimeValue.parse at hparsed
    obtain ⟨parts, hparts, hparsed⟩ := bind_eq_ok.mp hparsed
    rw [required_ok, hcut] at hparts
    cases hparts
    obtain ⟨again, hagain, _⟩ := bind_eq_ok.mp hparsed
    exact ((hback again).mp hagain).2 hshort

/-! ## 7. Every value -/

theorem checkedProperty_some {value stored : PropertyValue}
    (h : checkedProperty value = .ok (some stored)) : stored = value := by
  unfold checkedProperty at h
  obtain ⟨_, _, h⟩ := bind_eq_ok.mp h
  cases h
  rfl

theorem ComesBack.wrapped {α : Type} {read : ValueResult α} {value : α} {readable : Prop}
    (h : ComesBack read value readable) (wrap : α → Value) :
    ComesBack ((ofValue read).map wrap) (wrap value) readable := by
  refine comesBack_of (fun hreadable => ?_) fun back hback => ?_
  · rw [(h value).mpr ⟨rfl, hreadable⟩]
    rfl
  · cases hread : read with
    | error e =>
      rw [hread] at hback
      cases hback
    | ok a => exact ((h a).mp hread).2

theorem comesBack_always {ε α : Type} {read : Except ε α} {value : α} (h : read = .ok value) :
    ComesBack read value True :=
  comesBack_of (fun _ => h) fun _ _ => trivial

section ReadBack

variable {zones : ZoneDatabase} {wrapLongitude : F64 → F64}

mutual

theorem propertyValue_comes_back (hunsigned : zones.Unsigned)
    (hwrap : WrapsLongitude wrapLongitude) : ∀ {value : Value} {stored : PropertyValue},
    value.Constructed zones wrapLongitude → propertyFromValue value = .ok (some stored) →
      ComesBack (propertyValue zones wrapLongitude stored) value value.Readable
  | .null, _, _, h => by
    unfold propertyFromValue at h
    cases h
  | .boolean b, _, _, h => by
    unfold propertyFromValue at h
    cases checkedProperty_some h
    exact comesBack_always rfl
  | .integer n, _, _, h => by
    unfold propertyFromValue at h
    cases checkedProperty_some h
    exact comesBack_always rfl
  | .float x, _, _, h => by
    unfold propertyFromValue at h
    cases checkedProperty_some h
    exact comesBack_always rfl
  | .string text, _, _, h => by
    unfold propertyFromValue at h
    cases checkedProperty_some h
    exact comesBack_always rfl
  | .list values, _, hc, h => by
    unfold propertyFromValue at h
    obtain ⟨elements, helements, h⟩ := bind_eq_ok.mp h
    cases checkedProperty_some h
    unfold Value.Constructed at hc
    have hall := propertyValues_come_back hunsigned hwrap hc helements
    unfold propertyValue Value.Readable
    refine comesBack_of (fun hreadable => ?_) fun back hok => ?_
    · rw [(hall values).mpr ⟨rfl, hreadable⟩]
      rfl
    · obtain ⟨others, hothers, _⟩ := bind_eq_ok.mp hok
      exact ((hall others).mp hothers).2
  | .map _, _, _, h => by
    unfold propertyFromValue at h
    cases h
  | .node, _, _, h => by
    unfold propertyFromValue at h
    cases h
  | .relationship, _, _, h => by
    unfold propertyFromValue at h
    cases h
  | .path, _, _, h => by
    unfold propertyFromValue at h
    cases h
  | .date date, _, hc, h => by
    unfold propertyFromValue at h
    cases checkedProperty_some h
    unfold Value.Constructed at hc
    obtain ⟨text, hparse⟩ := hc
    exact (date_comes_back hparse).wrapped .date
  | .localTime time, _, hc, h => by
    unfold propertyFromValue at h
    cases checkedProperty_some h
    unfold Value.Constructed at hc
    obtain ⟨text, hparse⟩ := hc
    obtain ⟨hlt, htext⟩ := localTime_parse_ok hparse
    have hback : LocalTimeValue.parse (formatLocalTime time.nanoseconds) = .ok time := by
      rw [parse_formatLocalTime hlt, ← htext]
    exact (comesBack_always hback).wrapped .localTime
  | .time time, _, hc, h => by
    unfold propertyFromValue at h
    cases checkedProperty_some h
    unfold Value.Constructed at hc
    obtain ⟨text, hparse⟩ := hc
    obtain ⟨hlt, hoffset, htext⟩ := time_parse_ok hparse
    have hback : TimeValue.parse (formatLocalTime time.localNanoseconds ++
        formatOffset time.offsetSeconds) = .ok time := by
      rw [time_parse_format hlt hoffset, ← htext]
    exact (comesBack_always hback).wrapped .time
  | .localDateTime dateTime, _, hc, h => by
    unfold propertyFromValue at h
    cases checkedProperty_some h
    unfold Value.Constructed at hc
    obtain ⟨text, hparse⟩ := hc
    exact (localDateTime_comes_back hparse).wrapped .localDateTime
  | .zonedDateTime dateTime, _, hc, h => by
    unfold propertyFromValue at h
    obtain ⟨parts, hparts, h⟩ := bind_eq_ok.mp h
    cases checkedProperty_some h
    unfold Value.Constructed at hc
    obtain ⟨text, hparse⟩ := hc
    rw [ofValue_ok] at hparts
    unfold ZonedDateTimeValue.storageComponents at hparts
    obtain ⟨_, _, hparts⟩ := bind_eq_ok.mp hparts
    cases hparts
    exact zonedDateTime_comes_back hunsigned hparse
  | .duration duration, _, _, h => by
    unfold propertyFromValue at h
    cases checkedProperty_some h
    exact comesBack_always rfl
  | .point point, _, hc, h => by
    unfold propertyFromValue at h
    cases checkedProperty_some h
    unfold Value.Constructed at hc
    obtain ⟨crs, coordinates, hnew⟩ := hc
    exact comesBack_always (point_comes_back hwrap hnew)
  | .vector vector, _, hc, h => by
    unfold propertyFromValue at h
    cases checkedProperty_some h
    unfold Value.Constructed at hc
    exact comesBack_always (vector_comes_back hc)
  | .uuid uuid, _, hc, h => by
    unfold propertyFromValue at h
    cases checkedProperty_some h
    unfold Value.Constructed at hc
    exact (comesBack_always (uuid_parse_text hc)).wrapped .uuid

theorem propertyValues_come_back (hunsigned : zones.Unsigned)
    (hwrap : WrapsLongitude wrapLongitude) :
    ∀ {values : List Value} {stored : List PropertyValue},
    AllConstructed zones wrapLongitude values → propertyList values = .ok stored →
      ComesBack (propertyValues zones wrapLongitude stored) values (AllReadable values)
  | [], _, _, h => by
    unfold propertyList at h
    cases h
    exact comesBack_always rfl
  | value :: rest, _, hc, h => by
    unfold AllConstructed at hc
    unfold propertyList at h
    obtain ⟨kept, hkept, h⟩ := bind_eq_ok.mp h
    obtain ⟨first, hfirst, h⟩ := bind_eq_ok.mp h
    obtain ⟨others, hothers, h⟩ := bind_eq_ok.mp h
    cases h
    cases kept with
    | none => cases hfirst
    | some kept =>
      cases hfirst
      have hhead := propertyValue_comes_back hunsigned hwrap hc.1 hkept
      have htail := propertyValues_come_back hunsigned hwrap hc.2 hothers
      unfold propertyValues AllReadable
      refine comesBack_of (fun hreadable => ?_) fun back hok => ?_
      · rw [(hhead value).mpr ⟨rfl, hreadable.1⟩, (htail rest).mpr ⟨rfl, hreadable.2⟩]
        rfl
      · obtain ⟨a, ha, hok⟩ := bind_eq_ok.mp hok
        obtain ⟨b, hb, _⟩ := bind_eq_ok.mp hok
        exact ⟨((hhead a).mp ha).2, ((htail b).mp hb).2⟩

end

/-- **A stored value is read back exactly when it is readable, what is read back is the value that
    was stored, and the borrowed reader reads the same as the owned one.** -/
theorem property_comes_back (hunsigned : zones.Unsigned) (hwrap : WrapsLongitude wrapLongitude)
    {value : Value} {stored : PropertyValue} (hconstructed : value.Constructed zones wrapLongitude)
    (hstored : propertyFromValue value = .ok (some stored)) :
    (propertyValue zones wrapLongitude stored = .ok value ↔ value.Readable) ∧
      (∀ back, propertyValue zones wrapLongitude stored = .ok back → back = value) ∧
      borrowedProperty zones wrapLongitude stored = propertyValue zones wrapLongitude stored := by
  have hback := propertyValue_comes_back hunsigned hwrap hconstructed hstored
  refine ⟨(hback value).trans (and_iff_right rfl), fun back hread => ((hback back).mp hread).1, ?_⟩
  exact borrowedProperty_eq zones wrapLongitude stored

end ReadBack

/-! ## 8. Two values -/

/-- A database of one zone, in its summer. -/
def berlinSummer : ZoneDatabase where
  known zone := zone == "Europe/Berlin".toList
  offsetAt _ _ _ := some 7200

/-- Longitudes out of range are put on the prime meridian. -/
def toMeridian (_ : F64) : F64 := ⟨0⟩

theorem berlinSummer_unsigned : berlinSummer.Unsigned := by
  intro zone hknown
  have : zone = "Europe/Berlin".toList := by simpa [berlinSummer] using hknown
  rw [this]
  rfl

theorem toMeridian_wraps : WrapsLongitude toMeridian := fun _ _ =>
  ⟨(by decide : isFinite ⟨0⟩ = true), (by decide : withinLongitude ⟨0⟩ = true)⟩

/-- Noon of a summer day. -/
def summerNoon : ZonedDateTimeValue where
  value := "2024-06-01T12:00:00+02:00".toList
  zone := "Europe/Berlin".toList
  instantNanoseconds := 1717236000000000000
  offsetSeconds := 7200

theorem property_comes_back_summerNoon :
    (propertyValue berlinSummer toMeridian
        (.zonedDateTime ⟨1717236000, 0, "Europe/Berlin".toList⟩) = .ok (.zonedDateTime summerNoon) ↔
      (Value.zonedDateTime summerNoon).Readable) ∧
    (∀ back, propertyValue berlinSummer toMeridian
        (.zonedDateTime ⟨1717236000, 0, "Europe/Berlin".toList⟩) = .ok back →
      back = .zonedDateTime summerNoon) ∧
    borrowedProperty berlinSummer toMeridian
        (.zonedDateTime ⟨1717236000, 0, "Europe/Berlin".toList⟩) =
      propertyValue berlinSummer toMeridian
        (.zonedDateTime ⟨1717236000, 0, "Europe/Berlin".toList⟩) :=
  property_comes_back berlinSummer_unsigned toMeridian_wraps
    ⟨"2024-06-01T12:00:00+02:00".toList, by decide +kernel⟩ rfl

/-- The last day of the year before year 0, and a time whose offset has no minutes: both are
    accepted and stored, and neither can be read. -/
theorem yearMinusOne_and_shortOffset_lost :
    (∃ date stored, DateValue.parse "-0001-12-31".toList = .ok date ∧
      propertyFromValue (.date date) = .ok (some stored) ∧
      propertyValue berlinSummer toMeridian stored =
        .error ⟨.type, "Date year must contain at least four digits"⟩) ∧
    (∃ value stored, ZonedDateTimeValue.parse berlinSummer "2024-06-01T12:00:00+02:00".toList
        "+02".toList = .ok value ∧
      propertyFromValue (.zonedDateTime value) = .ok (some stored) ∧
      propertyValue berlinSummer toMeridian stored =
        .error (.internal ("persisted ZonedDateTime has unknown IANA zone " ++ "+02".quote))) := by
  refine ⟨⟨⟨"-0001-12-31".toList, -719529⟩, .date (-719529), by rfl, rfl, by rfl⟩,
    ⟨⟨"2024-06-01T12:00:00+02:00".toList, "+02".toList, 1717236000000000000, 7200⟩,
      .zonedDateTime ⟨1717236000, 0, "+02".toList⟩, by decide +kernel, rfl, by rfl⟩⟩

end Lithograph.Cypher
