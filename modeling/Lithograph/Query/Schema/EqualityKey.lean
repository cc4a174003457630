/-
  File:      Lithograph/Query/Schema/EqualityKey.lean
  Subject:   The bytes of an equality key (`query/schema/equality.rs`).

  * `keyRank_key`: a key tells the family of its value.
-/
import Lithograph.Query.Spill.NumberKey
import Lithograph.Storage.LayerIdentity

namespace Lithograph.Query

open Library Storage Expression

/-! ## 1. Parts -/

/-- A byte vector of a 64-bit machine: its length is a machine number. -/
def Addressable (key : Bytes) : Prop := key.length < 2 ^ 64

theorem u64Bytes_inj {m n : Nat} (hm : m < 2 ^ 64) (hn : n < 2 ^ 64)
    (h : u64Bytes m = u64Bytes n) : m = n := by
  have hback := @leNat_leBytes 8 m hm
  have hback' := @leNat_leBytes 8 n hn
  unfold u64Bytes at h
  rw [h, hback'] at hback
  exact hback.symm

theorem keyPart_prefixFree : PrefixFreeOn Addressable keyPart := by
  intro x y r s hx hy h
  unfold keyPart at h
  rw [List.append_assoc, List.append_assoc] at h
  obtain ⟨hlength, hrest⟩ := List.append_inj h (by
    rw [u64Bytes, u64Bytes, leBytes_length, leBytes_length])
  exact List.append_inj hrest (u64Bytes_inj hx hy hlength)

theorem keyPart_ne_nil (part : Bytes) : keyPart part ≠ [] := by
  intro h
  have hlength := congrArg List.length h
  unfold keyPart at hlength
  rw [List.length_append, u64Bytes, leBytes_length, List.length_nil] at hlength
  omega

theorem keyParts_inj {parts parts' : List Bytes} (h : ∀ part ∈ parts, Addressable part)
    (h' : ∀ part ∈ parts', Addressable part)
    (heq : parts.flatMap keyPart = parts'.flatMap keyPart) : parts = parts' :=
  keyPart_prefixFree.sequence keyPart_ne_nil h h' heq

theorem length_part_le {parts : List Bytes} {part : Bytes} (h : part ∈ parts) :
    part.length ≤ (parts.flatMap keyPart).length := by
  induction parts with
  | nil => cases h
  | cons first rest ih =>
    rw [List.flatMap_cons, List.length_append, keyPart, List.length_append]
    rcases List.mem_cons.mp h with rfl | h
    · omega
    · have hrest := ih h
      omega

variable {width : Nat} {x : F64} {n : Int} {key : Bytes} {value : PropertyValue}

theorem leBytes_prefixFree : PrefixFreeOn (fun n => n < 256 ^ width) (leBytes width) := by
  intro m n r s hm hn h
  obtain ⟨hbytes, hrest⟩ := List.append_inj h (by rw [leBytes_length, leBytes_length])
  have hback := leNat_leBytes hm
  rw [hbytes, leNat_leBytes hn] at hback
  exact ⟨hback.symm, hrest⟩

theorem leBytes_ne_nil (hwidth : 0 < width) (n : Nat) : leBytes width n ≠ [] := by
  intro h
  have hlength := congrArg List.length h
  rw [leBytes_length, List.length_nil] at hlength
  omega

/-! ## 2. Numbers -/

theorem wholeMagnitude_eq (x : F64) :
    wholeMagnitude x = if floatHasFraction x then none else some (floatWhole x) := by
  unfold wholeMagnitude floatHasFraction floatWhole
  by_cases hpos : 0 ≤ (floatParts x).2
  · simp [hpos]
  · have hneg : (floatParts x).2 < 0 := Int.not_le.mp hpos
    by_cases hrest : (floatParts x).1 % 2 ^ (-(floatParts x).2).toNat = 0
    · simp [hpos, hrest]
    · simp [hpos, hneg, hrest]

theorem exactInteger_eq (x : F64) : floatAsExactInteger x =
    if 0x7ff0000000000000 ≤ floatMagnitude x ∨ floatHasFraction x = true then none
    else if -2 ^ 63 ≤ floatTrunc x ∧ floatTrunc x < 2 ^ 63 then some (floatTrunc x) else none := by
  unfold floatAsExactInteger
  rw [wholeMagnitude_eq]
  by_cases hfinite : 0x7ff0000000000000 ≤ floatMagnitude x
  · rw [if_pos hfinite, if_pos (Or.inl hfinite)]
  · rw [if_neg hfinite]
    cases hfraction : floatHasFraction x with
    | true => rw [if_pos rfl, if_pos (Or.inr rfl), Option.bind_eq_bind, Option.bind_none]
    | false =>
      rw [if_neg Bool.false_ne_true, if_neg (not_or.mpr ⟨hfinite, Bool.false_ne_true⟩)]
      rfl

/-- **The integer of a float is the one it is equal to.** -/
theorem exactInteger_iff :
    floatAsExactInteger x = some n ↔ InI64 n ∧ integerFloatCmp n x = some .eq := by
  rw [exactInteger_eq]
  constructor
  · intro h
    split at h
    · cases h
    rename_i hwhole
    rw [not_or, Bool.not_eq_true] at hwhole
    obtain ⟨hfinite, hfraction⟩ := hwhole
    split at h
    · rename_i hin
      obtain rfl := Option.some.inj h
      have hnan : x.isNan = false := by
        refine Cypher.isNan_of_finite ?_
        rw [isFinite_iff, decide_eq_true_eq]
        omega
      refine ⟨hin, (integerFloatCmp_iff hin x).mpr ⟨hnan, ?_⟩⟩
      obtain ⟨rest, hpos, _, hrest, hunits⟩ := floatUnits_parts hnan
      have hzero : rest = 0 := by
        have hnot : ¬ 0 < rest := fun hlt => by
          rw [hrest.mpr hlt] at hfraction
          cases hfraction
        omega
      rw [hunits, hzero, Int.add_zero, floatTrunc_eq]
      unfold integerUnits
      split
      · rw [Int.neg_mul]
      · rfl
    · cases h
  · intro ⟨hin, h⟩
    obtain ⟨hfinite, hfraction, _, htrunc⟩ := whole_of_equal h
    rw [isFinite_iff, decide_eq_true_eq] at hfinite
    rw [if_neg (not_or.mpr ⟨by omega, by rw [hfraction]; exact Bool.false_ne_true⟩), htrunc,
      if_pos ⟨hin.1, hin.2⟩]

theorem inI64_of_equal (h : integerFloatCmp n x = some .eq) : InI64 n := by
  obtain ⟨_, _, hrange, htrunc⟩ := whole_of_equal h
  unfold inIntegerRange at hrange
  rw [Bool.and_eq_true, decide_eq_true_eq, decide_eq_true_eq] at hrange
  rw [← htrunc]
  exact floatTrunc_inRange (by omega) (by omega)

theorem exactInteger_none (h : floatAsExactInteger x = none) (n : Int) :
    integerFloatCmp n x ≠ some .eq := by
  intro hcmp
  rw [exactInteger_iff.mpr ⟨inI64_of_equal hcmp, hcmp⟩] at h
  cases h

theorem numericKey_inj {m : Int} (hm : InI64 m) (hn : InI64 n) (h : numericKey m = numericKey n) :
    m = n :=
  i64Bytes_inj hm hn (List.append_cancel_left h)

theorem equalityF64Bits_iff {y : F64} (hx : x.isNan = false) (hy : y.isNan = false) :
    equalityF64Bits x = equalityF64Bits y ↔ numericEqual x y = true := by
  have hxlt := x.bits.toNat_lt
  have hylt := y.bits.toNat_lt
  unfold equalityF64Bits numericEqual floatOrder floatNegative floatMagnitude
  rw [hx, hy]
  simp only [Bool.false_eq_true, if_false, Bool.or_self, beq_iff_eq, decide_eq_true_eq]
  constructor
  · intro h
    split at h <;> split at h <;> simp only [Option.some.injEq] at h <;> (split <;> split <;> omega)
  · intro h
    split at h <;> split at h <;> (split <;> split <;> simp only [Option.some.injEq] <;> omega)

/-! ## 3. Keys as their parts -/

theorem listKey_iff : ∀ {values : List PropertyValue} {start key : Bytes},
    listKey values start = .ok (some key) ↔ ∃ parts,
      List.Forall₂ (fun value part => equalityKey value = .ok (some part)) values parts ∧
        key = start ++ parts.flatMap keyPart
  | [], start, key => by
    unfold listKey
    constructor
    · intro h
      cases h
      exact ⟨[], .nil, (List.append_nil start).symm⟩
    · rintro ⟨parts, hparts, hkey⟩
      cases hparts
      rw [hkey, List.flatMap_nil, List.append_nil]
  | value :: rest, start, key => by
    unfold listKey
    constructor
    · intro h
      obtain ⟨part, hpart, h⟩ := bind_eq_ok.mp h
      cases part with
      | none => cases h
      | some part =>
        obtain ⟨parts, hparts, hkey⟩ := listKey_iff.mp h
        refine ⟨part :: parts, .cons hpart hparts, ?_⟩
        rw [hkey, List.flatMap_cons, List.append_assoc]
    · rintro ⟨parts, hparts, hkey⟩
      cases hparts with
      | cons hpart hparts =>
        refine bind_eq_ok.mpr ⟨_, hpart, listKey_iff.mpr ⟨_, hparts, ?_⟩⟩
        rw [hkey, List.flatMap_cons, List.append_assoc]

theorem coordinatesFold_iff : ∀ {coordinates : List F64} {start key : Bytes},
    coordinates.foldlM (fun key coordinate => do
      let bits ← equalityF64Bits coordinate
      pure (key ++ u64Bytes bits)) start = some key ↔ ∃ bits,
        List.Forall₂ (fun coordinate b => equalityF64Bits coordinate = some b) coordinates bits ∧
          key = start ++ bits.flatMap u64Bytes
  | [], start, key => by
    constructor
    · intro h
      cases h
      exact ⟨[], .nil, (List.append_nil start).symm⟩
    · intro ⟨bits, hbits, hkey⟩
      cases hbits
      rw [hkey, List.flatMap_nil, List.append_nil]
      rfl
  | coordinate :: rest, start, key => by
    rw [List.foldlM_cons]
    constructor
    · intro h
      cases hfirst : equalityF64Bits coordinate with
      | none =>
        rw [hfirst] at h
        cases h
      | some b =>
        rw [hfirst] at h
        obtain ⟨bits, hbits, hkey⟩ := coordinatesFold_iff.mp h
        refine ⟨b :: bits, .cons hfirst hbits, ?_⟩
        rw [hkey, List.flatMap_cons, List.append_assoc]
    · intro ⟨bits, hbits, hkey⟩
      cases hbits with
      | cons hfirst hbits =>
        rw [hfirst]
        refine coordinatesFold_iff.mpr ⟨_, hbits, ?_⟩
        rw [hkey, List.flatMap_cons, List.append_assoc]

/-- What stands in front of the coordinates of a point. -/
def pointHead (point : PointValue) : Bytes :=
  Text.utf8 "point".toList ++ i64Bytes point.crs ++ u64Bytes point.coordinates.length

theorem pointKey_iff {point : PointValue} : pointKey point = some key ↔ ∃ bits,
    List.Forall₂ (fun coordinate b => equalityF64Bits coordinate = some b) point.coordinates bits ∧
      key = pointHead point ++ bits.flatMap u64Bytes :=
  coordinatesFold_iff

theorem coordinateKeys_iff {width : Nat} {normalize : Nat → Option Nat} :
    ∀ {n : Nat} {packed start key : Bytes},
      coordinateKeys width normalize n packed start = some key ↔ ∃ bits,
        List.Forall₂ (fun chunk b => normalize (leNat chunk) = some b)
            (Cypher.wholeChunks width n packed) bits ∧
          key = start ++ bits.flatMap (leBytes width)
  | 0, packed, start, key => by
    unfold coordinateKeys Cypher.wholeChunks
    constructor
    · intro h
      cases h
      exact ⟨[], .nil, (List.append_nil start).symm⟩
    · rintro ⟨bits, hbits, hkey⟩
      cases hbits
      rw [hkey, List.flatMap_nil, List.append_nil]
  | n + 1, packed, start, key => by
    unfold coordinateKeys Cypher.wholeChunks
    constructor
    · intro h
      split at h
      · cases h
      · rename_i b hfirst
        obtain ⟨bits, hbits, hkey⟩ := coordinateKeys_iff.mp h
        refine ⟨b :: bits, .cons hfirst hbits, ?_⟩
        rw [hkey, List.flatMap_cons, List.append_assoc]
    · rintro ⟨bits, hbits, hkey⟩
      cases hbits with
      | cons hfirst hbits =>
        rw [hfirst]
        refine coordinateKeys_iff.mpr ⟨_, hbits, ?_⟩
        rw [hkey, List.flatMap_cons, List.append_assoc]

/-- What stands in front of the coordinates of a vector. -/
def vectorHead (vector : VectorValue) : Bytes :=
  Text.utf8 "vector".toList ++ [vector.coordinateType.tag] ++ u64Bytes vector.dimension

theorem vectorKey_floats {vector : VectorValue} {normalize : Nat → Option Nat} {bytes : Bytes}
    (hcanonical : (PropertyValue.vector vector).canonicalBytes = .ok bytes)
    (hkey : vector.coordinateType = .f32 ∧ width = 4 ∧ normalize = equalityF32Bits ∨
      vector.coordinateType = .f64 ∧ width = 8 ∧
        normalize = fun bits => equalityF64Bits ⟨UInt64.ofNat bits⟩) :
    vectorKey vector = .ok (coordinateKeys width normalize (vector.packed.length / width)
      vector.packed (vectorHead vector)) := by
  unfold vectorKey
  rw [ofStorage_ok.mpr hcanonical, ok_bind]
  rcases hkey with ⟨htype, rfl, rfl⟩ | ⟨htype, rfl, rfl⟩
  · unfold vectorHead
    rw [htype]
    rfl
  · unfold vectorHead
    rw [htype]
    rfl

theorem vectorKey_integers {vector : VectorValue} {bytes : Bytes}
    (hcanonical : (PropertyValue.vector vector).canonicalBytes = .ok bytes)
    (hf32 : vector.coordinateType ≠ .f32) (hf64 : vector.coordinateType ≠ .f64) :
    vectorKey vector = (typedKey (.vector vector)).map some := by
  unfold vectorKey
  rw [ofStorage_ok.mpr hcanonical, ok_bind]
  cases htype : vector.coordinateType with
  | f32 => exact absurd htype hf32
  | f64 => exact absurd htype hf64
  | _ => rfl

/-! ## 4. The family of a key -/

/-- `value_order_rank` of a stored value. -/
def propertyRank : PropertyValue → Nat
  | .list _ => 3
  | .vector _ => 5
  | .point _ => 6
  | .zonedDateTime _ => 7
  | .localDateTime _ _ => 8
  | .date _ => 9
  | .time _ _ => 10
  | .localTime _ => 11
  | .duration _ _ _ _ => 12
  | .string _ => 13
  | .boolean _ => 14
  | .uuid _ => 15
  | .integer _ => 16
  | .float _ => 16

/-- The family a key is of, read off the key. -/
def keyRank (key : Bytes) : Nat :=
  if key.head? = (Text.utf8 "number".toList).head? then 16
  else if key.head? = (Text.utf8 "list".toList).head? then 3
  else if key.head? = (Text.utf8 "point".toList).head? then 6
  else if key.head? = (Text.utf8 "vector".toList).head? then 5
  else match fromCanonicalBytes (key.drop 5) with
    | .ok value => propertyRank value
    | .error _ => 0

theorem propertyRank_canonical (value : PropertyValue) :
    propertyRank value.canonical = propertyRank value := by
  cases value <;> rfl

theorem typedKey_ok : typedKey value = .ok key ↔
      ∃ bytes, value.canonicalBytes = .ok bytes ∧ key = Text.utf8 "typed".toList ++ bytes := by
  unfold typedKey
  constructor
  · intro h
    obtain ⟨bytes, hbytes, h⟩ := bind_eq_ok.mp h
    cases h
    exact ⟨bytes, ofStorage_ok.mp hbytes, rfl⟩
  · intro h
    obtain ⟨bytes, hbytes, rfl⟩ := h
    exact bind_eq_ok.mpr ⟨bytes, ofStorage_ok.mpr hbytes, rfl⟩

theorem typedKey_some : (typedKey value).map some = .ok (some key) ↔
      ∃ bytes, value.canonicalBytes = .ok bytes ∧ key = Text.utf8 "typed".toList ++ bytes := by
  rw [← typedKey_ok]
  cases typedKey value with
  | error e => exact iff_of_false (fun h => by cases h) fun h => by cases h
  | ok key' =>
    constructor
    · intro h
      cases h
      rfl
    · intro h
      cases h
      rfl

theorem keyRank_typed (hrange : value.InRange) (h : (typedKey value).map some = .ok (some key)) :
    keyRank key = propertyRank value := by
  obtain ⟨bytes, hbytes, rfl⟩ := typedKey_some.mp h
  have hdrop : (Text.utf8 "typed".toList ++ bytes).drop 5 = bytes := rfl
  have hrank : keyRank (Text.utf8 "typed".toList ++ bytes) =
      match fromCanonicalBytes ((Text.utf8 "typed".toList ++ bytes).drop 5) with
      | .ok value => propertyRank value
      | .error _ => 0 := rfl
  rw [hrank, hdrop, fromCanonicalBytes_canonicalBytes value hrange hbytes]
  exact propertyRank_canonical value

/-- **A key tells the family of its value.** -/
theorem keyRank_key {value : PropertyValue} {key : Bytes} (hrange : value.InRange)
    (h : equalityKey value = .ok (some key)) : keyRank key = propertyRank value := by
  unfold equalityKey at h
  cases value with
  | integer n =>
    cases h
    rfl
  | float x =>
    simp only at h
    split at h
    · cases h
    · split at h
      · cases h
        rfl
      · exact keyRank_typed hrange h
  | list values =>
    obtain ⟨parts, _, rfl⟩ := listKey_iff.mp h
    rfl
  | point point =>
    obtain ⟨bits, _, rfl⟩ := pointKey_iff.mp (Except.ok.inj h)
    rfl
  | vector vector =>
    have hcanonical : ∃ bytes, (PropertyValue.vector vector).canonicalBytes = .ok bytes := by
      obtain ⟨bytes, hbytes, _⟩ := bind_eq_ok.mp h
      exact ⟨bytes, ofStorage_ok.mp hbytes⟩
    obtain ⟨bytes, hbytes⟩ := hcanonical
    cases htype : vector.coordinateType with
    | f32 =>
      simp only [vectorKey_floats hbytes (.inl ⟨htype, rfl, rfl⟩)] at h
      obtain ⟨bits, _, rfl⟩ := coordinateKeys_iff.mp (Except.ok.inj h)
      rfl
    | f64 =>
      simp only [vectorKey_floats hbytes (.inr ⟨htype, rfl, rfl⟩)] at h
      obtain ⟨bits, _, rfl⟩ := coordinateKeys_iff.mp (Except.ok.inj h)
      rfl
    | _ =>
      simp only at h
      rw [vectorKey_integers hbytes (by rw [htype]; decide) (by rw [htype]; decide)] at h
      exact keyRank_typed hrange h
  | _ => exact keyRank_typed hrange h

end Lithograph.Query
