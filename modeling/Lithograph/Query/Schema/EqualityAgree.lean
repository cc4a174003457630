/-
  File:      Lithograph/Query/Schema/EqualityAgree.lean
  Subject:   Equality keys against the equality of expressions (`query/schema/equality.rs`,
             `cypher/value.rs`).

  The key of a property is built from what was stored; expressions compare the value.
-/
import Lithograph.Query.Schema.EqualityKey
import Lithograph.Query.Spill.ValueKey

namespace Lithograph.Query

open Library Storage Expression

/-! ## 1. Stored values -/

mutual

/-- The value as expressions compare it. Of a graph element nothing is left: none is stored. -/
def operand : Cypher.Value → Expression.Value
  | .null => .null
  | .boolean value => .boolean value
  | .integer value => .integer value
  | .float value => .float value
  | .string value => .string value
  | .list values => .list (operandItems values)
  | .map entries => .map (operandEntries entries)
  | .node => .node ⟨[]⟩
  | .relationship => .relationship ⟨[]⟩
  | .path => .path ⟨[], []⟩
  | .date value => .date value
  | .localTime value => .localTime value
  | .time value => .time value
  | .localDateTime value => .localDateTime value
  | .zonedDateTime value => .zonedDateTime value
  | .duration value => .duration value
  | .point value => .point value
  | .vector value => .vector value
  | .uuid value => .uuid value

def operandItems : List Cypher.Value → List Expression.Value
  | [] => []
  | value :: rest => operand value :: operandItems rest

def operandEntries : List (Text × Cypher.Value) → List (Text × Expression.Value)
  | [] => []
  | (key, value) :: rest => (key, operand value) :: operandEntries rest

end

/-- A property and the value it was stored from, of machine numbers and of a size that can be
    addressed. -/
structure Stored (zones : Cypher.ZoneDatabase) (wrapLongitude : F64 → F64)
    (value : Cypher.Value) (property : PropertyValue) : Prop where
  constructed : value.Constructed zones wrapLongitude
  stored : Cypher.propertyFromValue value = .ok (some property)
  inRange : property.InRange
  canonical : ∃ bytes, property.canonicalBytes = .ok bytes

/-- Both properties have a key, and it is one. -/
def SameKey (left right : PropertyValue) : Prop :=
  ∃ key, equalityKey left = .ok (some key) ∧ equalityKey right = .ok (some key)

/-- The equality of expressions answers true. -/
def CypherEqual (left right : Cypher.Value) : Prop :=
  cypherEquals (operand left) (operand right) = .ok (some true)

variable {p q : PropertyValue} {n : Int} {x : F64} {left right : CypherVector}

/-! ## 2. Families -/

section Families

variable {zones : Cypher.ZoneDatabase} {wrapLongitude : F64 → F64}

mutual

theorem operand_plain : ∀ {value : Cypher.Value} {property : PropertyValue},
    Cypher.propertyFromValue value = .ok (some property) →
      (operand value).Formed ∧ (operand value).pathFree = true
  | .null, _, _ | .boolean _, _, _ | .integer _, _, _ | .float _, _, _ | .string _, _, _
  | .node, _, _ | .relationship, _, _ | .date _, _, _ | .localTime _, _, _ | .time _, _, _
  | .localDateTime _, _, _ | .zonedDateTime _, _, _ | .duration _, _, _ | .point _, _, _
  | .vector _, _, _ | .uuid _, _, _ => ⟨trivial, rfl⟩
  | .map _, _, h | .path, _, h => by
    unfold Cypher.propertyFromValue at h
    cases h
  | .list values, _, h => by
    unfold Cypher.propertyFromValue at h
    obtain ⟨properties, hproperties, _⟩ := bind_eq_ok.mp h
    exact operandItems_plain hproperties

theorem operandItems_plain : ∀ {values : List Cypher.Value} {properties : List PropertyValue},
    Cypher.propertyList values = .ok properties →
      Value.FormedItems (operandItems values) ∧ rowPathFree (operandItems values) = true
  | [], _, _ => ⟨trivial, rfl⟩
  | value :: rest, _, h => by
    unfold Cypher.propertyList at h
    obtain ⟨stored, hstored, h⟩ := bind_eq_ok.mp h
    obtain ⟨first, hfirst, h⟩ := bind_eq_ok.mp h
    obtain ⟨others, hothers, _⟩ := bind_eq_ok.mp h
    cases stored with
    | none => cases hfirst
    | some property =>
      obtain ⟨hformed, hfree⟩ := operand_plain hstored
      obtain ⟨hformed', hfree'⟩ := operandItems_plain hothers
      refine ⟨⟨hformed, hformed'⟩, ?_⟩
      unfold operandItems rowPathFree
      rw [hfree, hfree']
      rfl

end

theorem propertyRank_stored {value : Cypher.Value} {property : PropertyValue}
    (h : Cypher.propertyFromValue value = .ok (some property)) :
    propertyRank property = valueOrderRank (operand value) := by
  unfold Cypher.propertyFromValue at h
  cases value with
  | list values =>
    obtain ⟨properties, _, h⟩ := bind_eq_ok.mp h
    cases Cypher.checkedProperty_some h
    rfl
  | zonedDateTime value =>
    obtain ⟨parts, _, h⟩ := bind_eq_ok.mp h
    cases Cypher.checkedProperty_some h
    rfl
  | null | map | node | relationship | path => cases h
  | _ =>
    cases Cypher.checkedProperty_some h
    rfl

theorem agree_of_families {left right : Cypher.Value} (hl : Stored zones wrapLongitude left p)
    (hr : Stored zones wrapLongitude right q)
    (hrank : valueOrderRank (operand left) ≠ valueOrderRank (operand right)) :
    SameKey p q ↔ CypherEqual left right := by
  refine iff_of_false (fun h => hrank ?_) fun h => hrank ?_
  · obtain ⟨key, hkey, hkey'⟩ := h
    rw [← propertyRank_stored hl.stored, ← propertyRank_stored hr.stored,
      ← keyRank_key hl.inRange hkey, keyRank_key hr.inRange hkey']
  · have hplain := operand_plain hr.stored
    exact rank_of_equivalent (operand_plain hl.stored).2 hplain.2
      (equivalent_of_equal _ _ hplain.1 h)

end Families

/-! ## 3. Keys of canonical bytes -/

theorem canonicalBytes_iff (hp : p.InRange) (hq : q.InRange)
    (hcanonical : ∃ bytes, p.canonicalBytes = .ok bytes) :
    (∃ bytes, p.canonicalBytes = .ok bytes ∧ q.canonicalBytes = .ok bytes) ↔
      p.canonical = q.canonical := by
  constructor
  · intro ⟨bytes, hbytes, hbytes'⟩
    have hback := fromCanonicalBytes_canonicalBytes p hp hbytes
    rw [fromCanonicalBytes_canonicalBytes q hq hbytes'] at hback
    exact (Except.ok.inj hback).symm
  · intro h
    obtain ⟨bytes, hbytes⟩ := hcanonical
    refine ⟨bytes, hbytes, ?_⟩
    rw [← canonicalBytes_canonical, ← h, canonicalBytes_canonical, hbytes]

/-- **Keys of canonical bytes are one where the canonical forms are.** -/
theorem sameKey_typed {p q : PropertyValue} (hp : p.InRange) (hq : q.InRange)
    (hcanonical : ∃ bytes, p.canonicalBytes = .ok bytes)
    (hkp : equalityKey p = (typedKey p).map some) (hkq : equalityKey q = (typedKey q).map some) :
    SameKey p q ↔ p.canonical = q.canonical := by
  rw [← canonicalBytes_iff hp hq hcanonical]
  unfold SameKey
  rw [hkp, hkq]
  constructor
  · intro ⟨key, hkey, hkey'⟩
    obtain ⟨bytes, hbytes, rfl⟩ := typedKey_some.mp hkey
    obtain ⟨bytes', hbytes', heq⟩ := typedKey_some.mp hkey'
    rw [← List.append_cancel_left heq] at hbytes'
    exact ⟨bytes, hbytes, hbytes'⟩
  · intro ⟨bytes, hbytes, hbytes'⟩
    exact ⟨_, typedKey_some.mpr ⟨bytes, hbytes, rfl⟩, typedKey_some.mpr ⟨bytes, hbytes', rfl⟩⟩

/-! ## 4. Numbers -/

/-- **The key of a float.** -/
theorem floatKey_split (x : F64) : (x.isNan = true ∧ equalityKey (.float x) = .ok none) ∨
      (∃ n, InI64 n ∧ integerFloatCmp n x = some .eq ∧
        equalityKey (.float x) = .ok (some (numericKey n))) ∨
      (x.isNan = false ∧ (∀ n, integerFloatCmp n x ≠ some .eq) ∧
        equalityKey (.float x) = (typedKey (.float x)).map some) := by
  unfold equalityKey
  cases hnan : x.isNan with
  | true => exact .inl ⟨rfl, rfl⟩
  | false =>
    cases hexact : floatAsExactInteger x with
    | some n =>
      obtain ⟨hin, hcmp⟩ := exactInteger_iff.mp hexact
      exact .inr (.inl ⟨n, hin, hcmp, rfl⟩)
    | none => exact .inr (.inr ⟨rfl, exactInteger_none hexact, rfl⟩)

theorem numericKey_ne_typed {value : PropertyValue} :
    (typedKey value).map some ≠ .ok (some (numericKey n)) := by
  intro h
  obtain ⟨bytes, _, heq⟩ := typedKey_some.mp h
  have hhead : some (110 : UInt8) = some 116 := congrArg List.head? heq
  exact absurd hhead (by decide)

theorem sameKey_integer : SameKey (.integer n) p ↔ equalityKey p = .ok (some (numericKey n)) := by
  constructor
  · intro ⟨key, hkey, hkey'⟩
    cases hkey
    exact hkey'
  · intro h
    exact ⟨numericKey n, rfl, h⟩

theorem sameKey_comm : SameKey p q ↔ SameKey q p :=
  exists_congr fun _ => and_comm

theorem sameKey_integer_float (hn : InI64 n) (x : F64) :
    SameKey (.integer n) (.float x) ↔ integerFloatCmp n x = some .eq := by
  rw [sameKey_integer]
  rcases floatKey_split x with ⟨hnan, hkey⟩ | ⟨m, hm, hcmp, hkey⟩ | ⟨_, hnone, hkey⟩
  · rw [hkey, integerFloatCmp_iff hn, hnan]
    exact iff_of_false (fun h => by cases h) fun h => by cases h.1
  · rw [hkey]
    constructor
    · intro h
      rw [← numericKey_inj hm hn (Option.some.inj (Except.ok.inj h))]
      exact hcmp
    · intro h
      rw [← (whole_of_equal h).2.2.2, (whole_of_equal hcmp).2.2.2]
  · rw [hkey]
    exact iff_of_false numericKey_ne_typed (hnone n)

theorem sameKey_floats {y : F64}
    (hx : ∃ bytes, (PropertyValue.float x).canonicalBytes = .ok bytes) :
    SameKey (.float x) (.float y) ↔ numericEqual x y = true := by
  rcases floatKey_split x with ⟨hnan, hkey⟩ | ⟨m, hm, hcmp, hkey⟩ | ⟨hnan, hnone, hkey⟩
  · rw [numericEqual_iff, hnan]
    refine iff_of_false (fun h => ?_) fun h => by cases h.1
    obtain ⟨key, h, _⟩ := h
    rw [hkey] at h
    cases h
  · have hsame : SameKey (.float x) (.float y) ↔ SameKey (.integer m) (.float y) := by
      unfold SameKey
      rw [hkey]
      rfl
    rw [hsame, sameKey_integer_float hm y, integerFloatCmp_iff hm, numericEqual_iff]
    obtain ⟨hnan, hunits⟩ := (integerFloatCmp_iff hm x).mp hcmp
    rw [hunits]
    exact ⟨fun h => ⟨hnan, h⟩, fun h => h.2⟩
  · rcases floatKey_split y with ⟨hnan', hkey'⟩ | ⟨n, hn, hcmp', hkey'⟩ | ⟨hnan', _, hkey'⟩
    · rw [numericEqual_iff, hnan']
      refine iff_of_false (fun h => ?_) fun h => by cases h.2.1
      obtain ⟨key, _, h⟩ := h
      rw [hkey'] at h
      cases h
    · refine iff_of_false (fun h => ?_) fun h => hnone n ?_
      · obtain ⟨key, h, h'⟩ := h
        rw [hkey'] at h'
        cases h'
        rw [hkey] at h
        exact numericKey_ne_typed h
      · rw [integerFloatCmp_iff hn]
        obtain ⟨_, _, hunits⟩ := (numericEqual_iff x y).mp h
        exact ⟨hnan, by rw [hunits, ((integerFloatCmp_iff hn y).mp hcmp').2]⟩
    · have htyped := @sameKey_typed (.float x) (.float y) trivial trivial hx hkey hkey'
      rw [htyped, PropertyValue.canonical, PropertyValue.canonical, PropertyValue.float.injEq,
        F64.canonical_of_not_nan hnan, F64.canonical_of_not_nan hnan']
      constructor
      · intro h
        rw [h]
        exact (numericEqual_iff y y).mpr ⟨hnan', hnan', rfl⟩
      · intro h
        exact eq_of_numericEqual h hnone

/-! ## 5. Points and vectors -/

theorem forall₂_common {α β γ : Type} {R : α → γ → Prop} {S : β → γ → Prop} :
    ∀ {l : List α} {r : List β}, (∃ m, List.Forall₂ R l m ∧ List.Forall₂ S r m) ↔
      List.Forall₂ (fun a b => ∃ c, R a c ∧ S b c) l r
  | [], [] => iff_of_true ⟨[], .nil, .nil⟩ .nil
  | [], _ :: _ => iff_of_false (fun ⟨_, h, h'⟩ => by cases h; cases h') fun h => by cases h
  | _ :: _, [] => iff_of_false (fun ⟨_, h, h'⟩ => by cases h'; cases h) fun h => by cases h
  | a :: l, b :: r => by
    constructor
    · intro ⟨m, h, h'⟩
      cases h with
      | cons hfirst hrest =>
        cases h' with
        | cons hfirst' hrest' =>
          exact .cons ⟨_, hfirst, hfirst'⟩ (forall₂_common.mp ⟨_, hrest, hrest'⟩)
    · intro h
      cases h with
      | cons hfirst hrest =>
        obtain ⟨c, hfirst, hfirst'⟩ := hfirst
        obtain ⟨m, hrest, hrest'⟩ := forall₂_common.mpr hrest
        exact ⟨c :: m, .cons hfirst hrest, .cons hfirst' hrest'⟩

variable {α β : Type}

theorem forall₂_iff_all {agree : α → β → Bool} {l : List α} {r : List β} :
    List.Forall₂ (fun a b => agree a b = true) l r ↔
      l.length = r.length ∧ ((l.zip r).all fun p => agree p.1 p.2) = true := by
  rw [List.forall₂_iff_zip, List.all_eq_true]
  refine and_congr_right fun _ => ⟨fun h p hp => h hp, fun h a b hp => h (a, b) hp⟩

theorem equalityF64Bits_common {y : F64} :
    (∃ b, equalityF64Bits x = some b ∧ equalityF64Bits y = some b) ↔ numericEqual x y = true := by
  cases hx : x.isNan with
  | true =>
    refine iff_of_false (fun ⟨b, h, _⟩ => ?_) fun h => ?_
    · unfold equalityF64Bits at h
      rw [hx] at h
      cases h
    · rw [numericEqual_iff, hx] at h
      cases h.1
  | false =>
    cases hy : y.isNan with
    | true =>
      refine iff_of_false (fun ⟨b, _, h⟩ => ?_) fun h => ?_
      · unfold equalityF64Bits at h
        rw [hy] at h
        cases h
      · rw [numericEqual_iff, hy] at h
        cases h.2.1
    | false =>
      rw [← equalityF64Bits_iff hx hy]
      constructor
      · intro ⟨b, h, h'⟩
        rw [h, h']
      · intro h
        have hsome : ∃ b, equalityF64Bits y = some b := by
          unfold equalityF64Bits
          rw [hy]
          simp only [Bool.false_eq_true, if_false]
          split <;> exact ⟨_, rfl⟩
        obtain ⟨b, hb⟩ := hsome
        exact ⟨b, h.trans hb, hb⟩

theorem equalityF64Bits_lt {b : Nat} (h : equalityF64Bits x = some b) : b < 256 ^ 8 := by
  have hlt := x.bits.toNat_lt
  unfold equalityF64Bits at h
  split at h
  · cases h
  · split at h <;> cases h <;> omega

theorem bits_inj {width : Nat} (hwidth : 0 < width) {start start' : Bytes} {bits bits' : List Nat}
    (hstart : start.length = start'.length) (h : ∀ b ∈ bits, b < 256 ^ width)
    (h' : ∀ b ∈ bits', b < 256 ^ width)
    (heq : start ++ bits.flatMap (leBytes width) = start' ++ bits'.flatMap (leBytes width)) :
    start = start' ∧ bits = bits' := by
  obtain ⟨hhead, hrest⟩ := List.append_inj heq hstart
  exact ⟨hhead, leBytes_prefixFree.sequence (leBytes_ne_nil hwidth) h h' hrest⟩

theorem forall₂_exists {R : α → β → Prop} {l : List α} {r : List β}
    (h : List.Forall₂ R l r) : ∀ b ∈ r, ∃ a ∈ l, R a b := by
  induction h with
  | nil => exact fun b hb => absurd hb List.not_mem_nil
  | cons hfirst _ ih =>
    intro b hb
    rcases List.mem_cons.mp hb with rfl | hb
    · exact ⟨_, .head _, hfirst⟩
    · obtain ⟨a, ha, hab⟩ := ih b hb
      exact ⟨a, .tail _ ha, hab⟩

theorem forall₂_forall {R : α → β → Prop} {p : β → Prop} (hp : ∀ a b, R a b → p b)
    {l : List α} {r : List β} (h : List.Forall₂ R l r) : ∀ b ∈ r, p b := fun b hb =>
  have ⟨a, _, hab⟩ := forall₂_exists h b hb
  hp a b hab

/-- **Points have one key exactly when they are equal.** -/
theorem sameKey_points {p q : PointValue} (hp : (PropertyValue.point p).InRange)
    (hq : (PropertyValue.point q).InRange) :
    SameKey (.point p) (.point q) ↔ p.crs = q.crs ∧
      List.Forall₂ (fun x y => numericEqual x y = true) p.coordinates q.coordinates := by
  have hcommon := @forall₂_common _ _ _ (fun coordinate b => equalityF64Bits coordinate = some b)
    (fun coordinate b => equalityF64Bits coordinate = some b) p.coordinates q.coordinates
  simp only [equalityF64Bits_common] at hcommon
  rw [← hcommon]
  have hkey : ∀ {point : PointValue} {key : Bytes},
      equalityKey (.point point) = .ok (some key) ↔ pointKey point = some key := by
    unfold equalityKey
    exact ⟨fun h => Except.ok.inj h, fun h => congrArg _ h⟩
  constructor
  · rintro ⟨key, h, h'⟩
    obtain ⟨bits, hbits, rfl⟩ := pointKey_iff.mp (hkey.mp h)
    obtain ⟨bits', hbits', heq⟩ := pointKey_iff.mp (hkey.mp h')
    obtain ⟨hhead, rfl⟩ := @bits_inj 8 (by decide) (pointHead p) (pointHead q) bits bits'
      (by simp [pointHead, length_i64Bytes, u64Bytes, leBytes_length])
      (forall₂_forall (fun _ _ h => equalityF64Bits_lt h) hbits)
      (forall₂_forall (fun _ _ h => equalityF64Bits_lt h) hbits') heq
    unfold pointHead at hhead
    rw [List.append_assoc, List.append_assoc] at hhead
    obtain ⟨hcrs, _⟩ := List.append_inj (List.append_cancel_left hhead)
      (by rw [length_i64Bytes, length_i64Bytes])
    exact ⟨i64Bytes_inj hp hq hcrs, bits, hbits, hbits'⟩
  · rintro ⟨hcrs, bits, hbits, hbits'⟩
    refine ⟨_, hkey.mpr (pointKey_iff.mpr ⟨bits, hbits, rfl⟩),
      hkey.mpr (pointKey_iff.mpr ⟨bits, hbits', ?_⟩)⟩
    unfold pointHead
    rw [hcrs, hbits.length_eq, hbits'.length_eq]

theorem wholeChunks_pack {w : Nat} (width : Nat) : ∀ values : List (BitVec w),
    Cypher.wholeChunks width values.length (Cypher.packCoordinates width values) =
      values.map fun value => leBytes width value.toNat
  | [] => rfl
  | value :: rest => by
    have hlength : (leBytes width value.toNat).length = width := leBytes_length _ _
    have hpack : Cypher.packCoordinates width (value :: rest) =
        leBytes width value.toNat ++ Cypher.packCoordinates width rest := List.flatMap_cons
    rw [hpack, List.length_cons, Cypher.wholeChunks, List.take_left' hlength,
      List.drop_left' hlength, wholeChunks_pack width rest, List.map_cons]

/-- **So have vectors of floats of one type.** -/
theorem sameKey_floatVectors {w width : Nat} {normalize : Nat → Option Nat}
    {equal : BitVec w → BitVec w → Bool} {left right : List (BitVec w)} {p q : VectorValue}
    (hwidth : 0 < width) (hw : 2 ^ w = 256 ^ width)
    (hp : p.packed = Cypher.packCoordinates width left ∧ p.dimension = left.length)
    (hq : q.packed = Cypher.packCoordinates width right ∧ q.dimension = right.length)
    (htype : p.coordinateType = q.coordinateType)
    (hkp : equalityKey (.vector p) = .ok (coordinateKeys width normalize (p.packed.length / width)
      p.packed (vectorHead p)))
    (hkq : equalityKey (.vector q) = .ok (coordinateKeys width normalize (q.packed.length / width)
      q.packed (vectorHead q)))
    (hlt : ∀ n b, n < 256 ^ width → normalize n = some b → b < 256 ^ width)
    (hequal : ∀ x y : BitVec w,
      (∃ b, normalize x.toNat = some b ∧ normalize y.toNat = some b) ↔ equal x y = true) :
    SameKey (.vector p) (.vector q) ↔ List.Forall₂ (fun x y => equal x y = true) left right := by
  have hcommon := @forall₂_common _ _ _ (fun (x : BitVec w) b => normalize x.toNat = some b)
    (fun (x : BitVec w) b => normalize x.toNat = some b) left right
  simp only [hequal] at hcommon
  rw [← hcommon]
  have hkey : ∀ {v : VectorValue} {values : List (BitVec w)} {key : Bytes},
      v.packed = Cypher.packCoordinates width values →
      equalityKey (.vector v) = .ok (coordinateKeys width normalize (v.packed.length / width)
        v.packed (vectorHead v)) →
      (equalityKey (.vector v) = .ok (some key) ↔ ∃ bits,
        List.Forall₂ (fun (x : BitVec w) b => normalize x.toNat = some b) values bits ∧
          key = vectorHead v ++ bits.flatMap (leBytes width)) := by
    intro v values key hpacked heq
    rw [heq, Except.ok.injEq, coordinateKeys_iff, hpacked, Cypher.length_packCoordinates,
      Nat.mul_div_cancel _ hwidth, wholeChunks_pack]
    simp only [List.forall₂_map_left_iff]
    have hback : ∀ x : BitVec w, leNat (leBytes width x.toNat) = x.toNat := fun x =>
      leNat_leBytes (hw ▸ x.isLt)
    simp only [hback]
  have hsmall : ∀ {values : List (BitVec w)} {bits : List Nat},
      List.Forall₂ (fun (x : BitVec w) b => normalize x.toNat = some b) values bits →
        ∀ b ∈ bits, b < 256 ^ width := fun h =>
    forall₂_forall (fun x b hb => hlt x.toNat b (hw ▸ x.isLt) hb) h
  constructor
  · rintro ⟨key, h, h'⟩
    obtain ⟨bits, hbits, rfl⟩ := (hkey hp.1 hkp).mp h
    obtain ⟨bits', hbits', heq⟩ := (hkey hq.1 hkq).mp h'
    obtain ⟨_, rfl⟩ := bits_inj hwidth
      (by simp [vectorHead, u64Bytes, leBytes_length]) (hsmall hbits) (hsmall hbits') heq
    exact ⟨bits, hbits, hbits'⟩
  · rintro ⟨bits, hbits, hbits'⟩
    refine ⟨_, (hkey hp.1 hkp).mpr ⟨bits, hbits, rfl⟩, (hkey hq.1 hkq).mpr ⟨bits, hbits', ?_⟩⟩
    unfold vectorHead
    rw [htype, hp.2, hq.2, hbits.length_eq, hbits'.length_eq]

theorem equalityF32Bits_common (x y : BitVec 32) :
    (∃ b, equalityF32Bits x.toNat = some b ∧ equalityF32Bits y.toNat = some b) ↔
      numericEqual (widen x) (widen y) = true := by
  rw [numericEqual_widen]
  unfold equalityF32Bits equalF32
  simp only [Bool.and_eq_true, Bool.not_eq_true', decide_eq_false_iff_not, beq_iff_eq]
  constructor
  · intro ⟨b, h, h'⟩
    split at h
    · cases h
    split at h'
    · cases h'
    split at h <;> split at h' <;> simp only [Option.some.injEq] at h h' <;>
      (split <;> split <;> omega)
  · intro ⟨⟨hnan, hnan'⟩, horder⟩
    rw [if_neg hnan, if_neg hnan']
    split at horder <;> split at horder <;>
      (split <;> split <;> simp only [Option.some.injEq, exists_eq_left'] <;> omega)

theorem ofNat_toNat_bits (x : BitVec 64) : (⟨UInt64.ofNat x.toNat⟩ : F64) = ofBits x := by
  refine float_eq ?_
  show (UInt64.ofNat x.toNat).toNat = x.toNat
  exact Nat.mod_eq_of_lt x.isLt

section Vectors

open Cypher (CypherVector VectorValues storageVector)

/-- A vector has integer coordinates. -/
def integral : VectorCoordinateType → Bool
  | .f32 | .f64 => false
  | _ => true

theorem canonical_integral {vector : VectorValue} (h : integral vector.coordinateType = true) :
    vector.canonical = vector := by
  unfold VectorValue.canonical
  split
  · rename_i packed hpacked
    unfold canonicalizeVectorBytes at hpacked
    dsimp only at hpacked
    split at hpacked
    · cases hpacked
    split at hpacked
    · cases hpacked
    split at hpacked
    · rename_i htype
      rw [htype] at h
      cases h
    · rename_i htype
      rw [htype] at h
      cases h
    · cases hpacked
      rfl
  · rfl

theorem storageVector_inj (h : storageVector left = storageVector right) :
    left.values = right.values := by
  rw [← Cypher.unpackedValues_storageVector left, h, Cypher.unpackedValues_storageVector right]

theorem vectorEqual_integral (hl : left.values.coordinateType = left.coordinateType)
    (hr : right.values.coordinateType = right.coordinateType)
    (hint : integral left.coordinateType = true) (hint' : integral right.coordinateType = true) :
    vectorEqual left right = .ok (some true) ↔ left.values = right.values := by
  obtain ⟨type, values⟩ := left
  obtain ⟨type', values'⟩ := right
  dsimp only at hl hr hint hint' ⊢
  subst hl
  subst hr
  unfold vectorEqual
  split
  · rename_i hother
    refine iff_of_false (fun h => by cases h) fun h => ?_
    rw [h] at hother
    exact hother.elim (fun hne => hne rfl) fun hne => hne rfl
  · cases values <;> cases values' <;> first
      | exact VectorCoordinateType.noConfusion hsame.1
      | exact absurd hint Bool.false_ne_true
      | simp

/-- What two stored vectors need: constructed, and of sizes that can be addressed. -/
structure StoredVector (vector : CypherVector) : Prop where
  constructed : CypherVector.new vector.coordinateType vector.values = .ok vector
  inRange : (PropertyValue.vector (storageVector vector)).InRange
  canonical : ∃ bytes, (PropertyValue.vector (storageVector vector)).canonicalBytes = .ok bytes

theorem type_of_floatKeys {p q : VectorValue} {width width' : Nat} {bits bits' : List Nat}
    (h : vectorHead p ++ bits.flatMap (leBytes width) =
      vectorHead q ++ bits'.flatMap (leBytes width')) : p.coordinateType = q.coordinateType := by
  have htag : some p.coordinateType.tag = some q.coordinateType.tag :=
    congrArg (fun key : Bytes => key[6]?) h
  cases hp : p.coordinateType <;> cases hq : q.coordinateType <;> first
    | rfl
    | (rw [hp, hq] at htag
       exact absurd htag (by decide))

theorem vectorKey_split {vector : CypherVector} (h : StoredVector vector) :
    (integral vector.coordinateType = true ∧ equalityKey (.vector (storageVector vector)) =
        (typedKey (.vector (storageVector vector))).map some) ∨
      (∃ values, vector = ⟨.f32, .f32 values⟩ ∧
        equalityKey (.vector (storageVector vector)) = .ok (coordinateKeys 4 equalityF32Bits
          ((storageVector vector).packed.length / 4) (storageVector vector).packed
          (vectorHead (storageVector vector)))) ∨
      (∃ values, vector = ⟨.f64, .f64 values⟩ ∧
        equalityKey (.vector (storageVector vector)) = .ok (coordinateKeys 8
          (fun bits => equalityF64Bits ⟨UInt64.ofNat bits⟩)
          ((storageVector vector).packed.length / 8) (storageVector vector).packed
          (vectorHead (storageVector vector)))) := by
  obtain ⟨htype, _⟩ := Cypher.CypherVector.new_ok h.constructed
  obtain ⟨bytes, hbytes⟩ := h.canonical
  obtain ⟨type, values⟩ := vector
  dsimp only at htype
  subst htype
  cases values with
  | f32 values => exact .inr (.inl ⟨values, rfl, vectorKey_floats hbytes (.inl ⟨rfl, rfl, rfl⟩)⟩)
  | f64 values => exact .inr (.inr ⟨values, rfl, vectorKey_floats hbytes (.inr ⟨rfl, rfl, rfl⟩)⟩)
  | _ => exact .inl ⟨rfl, vectorKey_integers hbytes (fun h => nomatch h) fun h => nomatch h⟩

theorem typed_ne_floatKey {vector : CypherVector} {width n : Nat} {normalize : Nat → Option Nat}
    {packed : Bytes} {value : PropertyValue} {key : Bytes}
    (h : (typedKey value).map some = .ok (some key))
    (h' : coordinateKeys width normalize n packed (vectorHead (storageVector vector)) =
      some key) : False := by
  obtain ⟨bytes, _, rfl⟩ := typedKey_some.mp h
  obtain ⟨bits, _, heq⟩ := coordinateKeys_iff.mp h'
  have hhead : some (116 : UInt8) = some 118 := congrArg List.head? heq
  exact absurd hhead (by decide)

theorem vectorEqual_of_types (h : left.coordinateType ≠ right.coordinateType) :
    ¬ vectorEqual left right = .ok (some true) := by
  unfold vectorEqual
  rw [if_pos (.inl h)]
  exact fun h => by cases h

theorem answer_floats {w : Nat} {ls rs : List (BitVec w)} {convert : BitVec w → F64}
    {answer : Cypher.ValueResult (Option Bool)} {error : Cypher.ValueError}
    (h : answer = if ls.length ≠ rs.length then .error error
      else .ok (some ((ls.zip rs).all fun p => numericEqual (convert p.1) (convert p.2)))) :
    List.Forall₂ (fun x y => numericEqual (convert x) (convert y) = true) ls rs ↔
      answer = .ok (some true) := by
  rw [@forall₂_iff_all _ _ (fun x y => numericEqual (convert x) (convert y)), h]
  by_cases hlength : ls.length = rs.length
  · rw [if_neg (not_not.mpr hlength)]
    exact ⟨fun h => by rw [h.2], fun h => ⟨hlength, Option.some.inj (Except.ok.inj h)⟩⟩
  · rw [if_pos hlength]
    exact iff_of_false (fun h => hlength h.1) fun h => by cases h

theorem vectorEqual_f32 (ls rs : List (BitVec 32)) :
    List.Forall₂ (fun x y => numericEqual (widen x) (widen y) = true) ls rs ↔
      vectorEqual ⟨.f32, .f32 ls⟩ ⟨.f32, .f32 rs⟩ = .ok (some true) :=
  answer_floats (by
    unfold vectorEqual VectorValues.len
    simp only [ne_eq, not_true_eq_false, false_or]
    rfl)

theorem vectorEqual_f64 (ls rs : List (BitVec 64)) :
    List.Forall₂ (fun x y => numericEqual (ofBits x) (ofBits y) = true) ls rs ↔
      vectorEqual ⟨.f64, .f64 ls⟩ ⟨.f64, .f64 rs⟩ = .ok (some true) :=
  answer_floats (by
    unfold vectorEqual VectorValues.len
    simp only [ne_eq, not_true_eq_false, false_or]
    rfl)

/-- **So have vectors.** -/
theorem sameKey_vectors (hl : StoredVector left) (hr : StoredVector right) :
    SameKey (.vector (storageVector left)) (.vector (storageVector right)) ↔
      vectorEqual left right = .ok (some true) := by
  obtain ⟨htype, _⟩ := Cypher.CypherVector.new_ok hl.constructed
  obtain ⟨htype', _⟩ := Cypher.CypherVector.new_ok hr.constructed
  rcases vectorKey_split hl with ⟨hint, hkey⟩ | ⟨ls, rfl, hkey⟩ | ⟨ls, rfl, hkey⟩
  · rcases vectorKey_split hr with ⟨hint', hkey'⟩ | ⟨rs, rfl, hkey'⟩ | ⟨rs, rfl, hkey'⟩
    · rw [sameKey_typed hl.inRange hr.inRange hl.canonical hkey hkey',
        vectorEqual_integral htype htype' hint hint', PropertyValue.canonical,
        PropertyValue.canonical, PropertyValue.vector.injEq,
        canonical_integral (by rw [← htype] at hint; exact hint),
        canonical_integral (by rw [← htype'] at hint'; exact hint')]
      refine ⟨storageVector_inj, fun h => ?_⟩
      unfold storageVector
      rw [h]
    · refine iff_of_false (fun ⟨key, h, h'⟩ => ?_) (vectorEqual_of_types fun h => ?_)
      · rw [hkey] at h
        rw [hkey'] at h'
        exact typed_ne_floatKey h (Except.ok.inj h')
      · rw [h] at hint
        cases hint
    · refine iff_of_false (fun ⟨key, h, h'⟩ => ?_) (vectorEqual_of_types fun h => ?_)
      · rw [hkey] at h
        rw [hkey'] at h'
        exact typed_ne_floatKey h (Except.ok.inj h')
      · rw [h] at hint
        cases hint
  · rcases vectorKey_split hr with ⟨hint', hkey'⟩ | ⟨rs, rfl, hkey'⟩ | ⟨rs, rfl, hkey'⟩
    · refine iff_of_false (fun ⟨key, h, h'⟩ => ?_) (vectorEqual_of_types fun h => ?_)
      · rw [hkey] at h
        rw [hkey'] at h'
        exact typed_ne_floatKey h' (Except.ok.inj h)
      · rw [← h] at hint'
        cases hint'
    · rw [← vectorEqual_f32]
      exact @sameKey_floatVectors 32 4 equalityF32Bits
        (fun x y => numericEqual (widen x) (widen y)) ls rs _ _ (by decide) (by decide)
        ⟨rfl, rfl⟩ ⟨rfl, rfl⟩ rfl hkey hkey'
        (fun n b hn h => by
          unfold equalityF32Bits at h
          split at h
          · cases h
          · split at h <;> cases h <;> omega)
        equalityF32Bits_common
    · refine iff_of_false (fun ⟨key, h, h'⟩ => ?_) (vectorEqual_of_types fun h => by cases h)
      rw [hkey] at h
      rw [hkey'] at h'
      obtain ⟨bits, _, rfl⟩ := coordinateKeys_iff.mp (Except.ok.inj h)
      obtain ⟨bits', _, heq⟩ := coordinateKeys_iff.mp (Except.ok.inj h')
      exact VectorCoordinateType.noConfusion (type_of_floatKeys heq)
  · rcases vectorKey_split hr with ⟨hint', hkey'⟩ | ⟨rs, rfl, hkey'⟩ | ⟨rs, rfl, hkey'⟩
    · refine iff_of_false (fun ⟨key, h, h'⟩ => ?_) (vectorEqual_of_types fun h => ?_)
      · rw [hkey] at h
        rw [hkey'] at h'
        exact typed_ne_floatKey h' (Except.ok.inj h)
      · rw [← h] at hint'
        cases hint'
    · refine iff_of_false (fun ⟨key, h, h'⟩ => ?_) (vectorEqual_of_types fun h => by cases h)
      rw [hkey] at h
      rw [hkey'] at h'
      obtain ⟨bits, _, rfl⟩ := coordinateKeys_iff.mp (Except.ok.inj h)
      obtain ⟨bits', _, heq⟩ := coordinateKeys_iff.mp (Except.ok.inj h')
      exact VectorCoordinateType.noConfusion (type_of_floatKeys heq)
    · rw [← vectorEqual_f64]
      exact @sameKey_floatVectors 64 8 (fun bits => equalityF64Bits ⟨UInt64.ofNat bits⟩)
        (fun x y => numericEqual (ofBits x) (ofBits y)) ls rs _ _ (by decide) (by decide)
        ⟨rfl, rfl⟩ ⟨rfl, rfl⟩ rfl hkey hkey' (fun n b _ h => equalityF64Bits_lt h)
        (fun x y => by
          rw [ofNat_toNat_bits, ofNat_toNat_bits]
          exact equalityF64Bits_common)

end Vectors

end Lithograph.Query
