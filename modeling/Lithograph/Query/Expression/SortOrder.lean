/-
  File:      Lithograph/Query/Expression/SortOrder.lean
  Subject:   The order of `ORDER BY`, spelled out (`cypher/value_order.rs`).

  Every value is spelled as a word of numbers: the rank of its family, its key, then its items.

  * **`order_told`**: a comparison gives the order of the words.
-/
import Lithograph.Library.Spelling
import Lithograph.Query.Expression.NumberOrder

namespace Lithograph.Query.Expression

open Std Library Storage Cypher

/-! ## 1. What the constructors of values see to -/

/-- A point of a known reference system, under its canonical name, with finite coordinates. -/
def PointFormed (point : Cypher.PointValue) : Prop :=
  (∃ geographic, referenceSystem point.crs =
      some (point.crs, point.srid, point.coordinates.length, geographic)) ∧
    ∀ x ∈ point.coordinates, isFinite x = true

/-- A duration of four integers of 64 bits. -/
def DurationFormed (duration : DurationValue) : Prop :=
  InI64 duration.months ∧ InI64 duration.days ∧ InI64 duration.seconds ∧ InI64 duration.nanoseconds

/-- A time with an offset, as the machine holds it. -/
def TimeFormed (time : TimeValue) : Prop :=
  time.localNanoseconds < 2 ^ 64 ∧ -(2 ^ 31) ≤ time.offsetSeconds ∧ time.offsetSeconds < 2 ^ 31

mutual

/-- A value as its constructors make it: integers of 64 bits, a map with each key once, an
    alternating path, checked points and vectors. -/
def Value.Valid : Value → Prop
  | .integer n => InI64 n
  | .list values => Value.ValidItems values
  | .map entries => (entries.map Prod.fst).Nodup ∧ Value.ValidEntries entries
  | .path value => pathBroken value = false
  | .time value => TimeFormed value
  | .duration value => DurationFormed value
  | .point value => PointFormed value
  | .vector value => CypherVector.new value.coordinateType value.values = .ok value
  | _ => True

def Value.ValidItems : List Value → Prop
  | [] => True
  | value :: rest => value.Valid ∧ Value.ValidItems rest

def Value.ValidEntries : List (Text × Value) → Prop
  | [] => True
  | (_, value) :: rest => value.Valid ∧ Value.ValidEntries rest

end

/-! ## 2. Spellings -/

theorem compare_natCast (m n : Nat) : compare (m : Int) (n : Int) = compare m n := by
  rw [Int.compare_eq_ite_lt, Nat.compare_eq_ite_lt]
  simp only [Int.ofNat_lt]

theorem tells_nat (m n : Nat) : Tells (compare m n) [(m : Int)] [(n : Int)] := by
  rw [← compare_natCast]
  exact tells_one m n

theorem tells_byte (x y : UInt8) : Tells (compare x y) [(x.toNat : Int)] [(y.toNat : Int)] := by
  have hcmp : compare x y = compare x.toNat y.toNat := by
    rw [Nat.compare_eq_ite_lt]
    simp only [compare, compareOfLessAndEq, UInt8.lt_iff_toNat_lt, ← UInt8.toNat_inj]
    split
    · rfl
    · split
      · rw [if_neg (by omega)]
      · rw [if_pos (by omega)]
  rw [hcmp]
  exact tells_nat _ _

def spellBytes (bytes : Bytes) : Word := spellList (fun byte => [(byte.toNat : Int)]) bytes

theorem tells_bytes (left right : Bytes) :
    Tells (compare left right) (spellBytes left) (spellBytes right) :=
  tells_word left right fun x _ y _ => tells_byte x y

def spellText (text : Text) : Word := spellBytes (Text.utf8 text)

theorem tells_text (left right : Text) :
    Tells (textCmp left right) (spellText left) (spellText right) :=
  tells_bytes _ _

/-- The coordinates of a vector. -/
def spellCoordinates : VectorValues → Word
  | .i8 values => values.flatMap fun v => [v.toInt]
  | .i16 values => values.flatMap fun v => [v.toInt]
  | .i32 values => values.flatMap fun v => [v.toInt]
  | .i64 values => values.flatMap fun v => [v.toInt]
  | .f32 values => values.flatMap fun v => [floatUnits (widen v)]
  | .f64 values => values.flatMap fun v => [floatUnits (ofBits v)]

/-- The identities along a path. -/
def pathIdentities (path : PathValue) : List Text :=
  (List.range (pathLength path)).map (pathIdentity path)

mutual

/-- The word of a value: its rank, then what decides between values of one rank. -/
def spell : Value → Word
  | .map entries =>
    0 :: (entries.length : Int) :: (spellList spellText (entries.map Prod.fst) ++ spellEntries entries)
  | .node node => 1 :: spellText node.elementId
  | .relationship relationship => 2 :: spellText relationship.elementId
  | .list values => 3 :: spellItems values
  | .path path => 4 :: spellList spellText (pathIdentities path)
  | .vector vector => 5 :: (vectorTypeRank vector.coordinateType : Int) ::
      (vector.values.len : Int) :: spellCoordinates vector.values
  | .point point => 6 :: (point.srid : Int) :: point.coordinates.flatMap fun x => [floatUnits x]
  | .zonedDateTime value =>
    7 :: value.instantNanoseconds :: value.offsetSeconds :: spellText value.zone
  | .localDateTime value => [8, value.days, (value.nanoseconds : Int)]
  | .date value => [9, value.days]
  | .time value => [10, value.instantKey, value.offsetSeconds]
  | .localTime value => [11, (value.nanoseconds : Int)]
  | .duration value => [12, durationSortKey value]
  | .string value => 13 :: spellText value
  | .boolean value => [14, if value then 1 else 0]
  | .uuid value => 15 :: spellBytes value.bytes
  | .integer value => [16, integerUnits value]
  | .float value => [16, floatUnits value]
  | .null => [17]

def spellItems : List Value → Word
  | [] => [0]
  | value :: rest => 1 :: (spell value ++ spellItems rest)

def spellEntries : List (Text × Value) → Word
  | [] => []
  | (_, value) :: rest => spell value ++ spellEntries rest

end

theorem spell_rank (value : Value) :
    ∃ rest, spell value = (valueOrderRank value : Int) :: rest := by
  cases value with
  | _ => exact ⟨_, by unfold spell; rfl⟩

theorem order_ranks {left right : Value} (h : valueOrderRank left ≠ valueOrderRank right) :
    ∃ o, cypherOrderCompare left right = .ok o ∧ Tells o (spell left) (spell right) := by
  obtain ⟨l, hl⟩ := spell_rank left
  obtain ⟨r, hr⟩ := spell_rank right
  refine ⟨compare (valueOrderRank left) (valueOrderRank right), ?_, ?_⟩
  · unfold cypherOrderCompare
    rw [if_pos h]
  · rw [hl, hr, ← compare_natCast]
    exact tells_first (by omega) l r

/-! ## 3. The keys of one family -/

theorem referenceSystem_dimension {crs name : Text} {srid dimension : Nat} {geographic : Bool}
    (h : referenceSystem crs = some (name, srid, dimension, geographic)) :
    dimension = if srid = 4326 ∨ srid = 7203 then 2 else 3 := by
  unfold referenceSystem at h
  simp only at h
  split at h
  · cases h
    rfl
  split at h
  · cases h
    rfl
  split at h
  · cases h
    rfl
  split at h
  · cases h
    rfl
  · cases h

theorem partialNumberCmp_units {x y : F64} (hx : isFinite x = true) (hy : isFinite y = true) :
    (partialNumberCmp x y).getD .eq = compare (floatUnits x) (floatUnits y) := by
  rw [← sortFloat_units]
  unfold sortFloat
  rw [isNan_of_finite hx, isNan_of_finite hy]

theorem pointOrder_told {left right : Cypher.PointValue} (hl : PointFormed left)
    (hr : PointFormed right) : Tells (pointOrderCompare left right)
      (spell (.point left)) (spell (.point right)) := by
  obtain ⟨⟨_, hsystem⟩, hleft⟩ := hl
  obtain ⟨⟨_, hsystem'⟩, hright⟩ := hr
  unfold spell pointOrderCompare
  refine tells_same 6 ?_
  rw [← compare_natCast]
  refine tells_cons_of _ _ fun hsrid => ?_
  have hlength : left.coordinates.length = right.coordinates.length := by
    rw [referenceSystem_dimension hsystem, referenceSystem_dimension hsystem', Int.ofNat_inj.mp hsrid]
  refine tells_zip hlength fun x hx y hy => ?_
  rw [partialNumberCmp_units (hleft x hx) (hright y hy)]
  exact tells_one _ _

theorem vectorTypeRank_inj {c d : VectorCoordinateType} (h : vectorTypeRank c = vectorTypeRank d) :
    c = d := by
  cases c <;> cases d <;> first | rfl | cases h

theorem signed_told {width : Nat} {left right : List (BitVec width)}
    (hlength : left.length = right.length) :
    Tells (List.compareLex signedCmp left right) (left.flatMap fun v => [v.toInt])
      (right.flatMap fun v => [v.toInt]) := by
  rw [← zipOrder_eq hlength]
  exact tells_zip hlength fun x _ y _ => tells_one _ _

theorem float_told {width : Nat} (convert : BitVec width → F64) {left right : List (BitVec width)}
    (hlength : left.length = right.length) :
    Tells (zipOrder (fun x y => sortFloat (convert x) (convert y)) left right)
      (left.flatMap fun v => [floatUnits (convert v)])
      (right.flatMap fun v => [floatUnits (convert v)]) := by
  refine tells_zip hlength fun x _ y _ => ?_
  rw [sortFloat_units]
  exact tells_one _ _

theorem vectorOrder_told {left right : CypherVector}
    (hl : CypherVector.new left.coordinateType left.values = .ok left)
    (hr : CypherVector.new right.coordinateType right.values = .ok right) :
    Tells (vectorOrderCompare left right) (spell (.vector left)) (spell (.vector right)) := by
  have hleft := (CypherVector.new_ok hl).1
  have hright := (CypherVector.new_ok hr).1
  unfold spell vectorOrderCompare
  rw [← compare_natCast, ← compare_natCast]
  refine tells_same 5 (tells_cons_of _ _ fun htype => tells_cons_of _ _ fun hlen => ?_)
  have htypes := vectorTypeRank_inj (Int.ofNat_inj.mp htype)
  have hlength := Int.ofNat_inj.mp hlen
  rw [← hleft, ← hright] at htypes
  obtain ⟨_, left⟩ := left
  obtain ⟨_, right⟩ := right
  cases left with
  | i8 left => cases right with
    | i8 right => exact signed_told hlength
    | _ => cases htypes
  | i16 left => cases right with
    | i16 right => exact signed_told hlength
    | _ => cases htypes
  | i32 left => cases right with
    | i32 right => exact signed_told hlength
    | _ => cases htypes
  | i64 left => cases right with
    | i64 right => exact signed_told hlength
    | _ => cases htypes
  | f32 left => cases right with
    | f32 right => exact float_told widen hlength
    | _ => cases htypes
  | f64 left => cases right with
    | f64 right => exact float_told ofBits hlength
    | _ => cases htypes

theorem firstDifference_eq (f g : Nat → Text) : ∀ m n start : Nat,
    firstDifference (fun index => textCmp (f index) (g index)) (List.range' start (min m n)) =
      zipOrder textCmp ((List.range' start m).map f) ((List.range' start n).map g)
  | 0, n, start => by
    rfl
  | m + 1, 0, start => rfl
  | m + 1, n + 1, start => by
    rw [Nat.succ_min_succ]
    exact congrArg (textCmp (f start) (g start)).then (firstDifference_eq f g m n (start + 1))

/-- **Paths are in the order of their words.** -/
theorem pathOrder_told {left right : PathValue} (hl : pathBroken left = false)
    (hr : pathBroken right = false) : ∃ o, pathOrderCompare left right = .ok o ∧
      Tells o (spell (.path left)) (spell (.path right)) := by
  refine ⟨List.compareLex textCmp (pathIdentities left) (pathIdentities right), ?_, ?_⟩
  · unfold pathOrderCompare
    rw [hl, hr, Bool.or_self, if_neg Bool.false_ne_true, List.range_eq_range', firstDifference_eq,
      ← zipOrder_then_length]
    unfold pathIdentities
    rw [List.length_map, List.length_map, List.length_range, List.length_range,
      List.range_eq_range', List.range_eq_range']
  · unfold spell
    exact tells_same 4 (tells_word _ _ fun x _ y _ => tells_text x y)

theorem boolean_told (left right : Bool) :
    Tells (compare left right) [if left then 1 else 0] [if right then 1 else 0] := by
  cases left <;> cases right <;> exact tells_one _ _

theorem integerUnits_compare (m n : Int) :
    compare m n = compare (integerUnits m) (integerUnits n) :=
  compare_congr (Int.mul_lt_mul_right (Int.natCast_pos.mpr unitsInOne_pos)).symm
    (Int.mul_lt_mul_right (Int.natCast_pos.mpr unitsInOne_pos)).symm

/-! ## 4. Lists and maps -/

mutual

/-- **A comparison gives the order of the words.** -/
theorem order_told : ∀ left right : Value, left.Valid → right.Valid →
    ∃ o, cypherOrderCompare left right = .ok o ∧ Tells o (spell left) (spell right)
  | .map left, right, hl, hr => by
    cases right with
    | map right =>
      rw [cypherOrderCompare_map]
      have hsize : Tells (compare left.length right.length)
          [(left.length : Int)] [(right.length : Int)] := tells_nat _ _
      have hhead : Tells ((compare left.length right.length).then
          (List.compareLex textCmp (left.map Prod.fst) (right.map Prod.fst)))
          ((left.length : Int) :: spellList spellText (left.map Prod.fst))
          ((right.length : Int) :: spellList spellText (right.map Prod.fst)) :=
        tells_append hsize (tells_word _ _ fun x _ y _ => tells_text x y)
      unfold spell
      cases hordering : (compare left.length right.length).then
          (List.compareLex textCmp (left.map Prod.fst) (right.map Prod.fst)) with
      | lt =>
        rw [hordering] at hhead
        exact ⟨.lt, rfl, tells_same 0 (tells_decided hhead (by decide) _ _)⟩
      | gt =>
        rw [hordering] at hhead
        exact ⟨.gt, rfl, tells_same 0 (tells_decided hhead (by decide) _ _)⟩
      | eq =>
        rw [hordering] at hhead
        have hkeys : left.map Prod.fst = right.map Prod.fst :=
          (compareLex_eq fun _ _ => textCmp_eq).mp (Ordering.then_eq_eq.mp hordering).2
        obtain ⟨o, horder, htells⟩ :=
          entries_told left right right hkeys (finds_self hr.1) hl.2 hr.2
        exact ⟨o, horder, tells_same 0 (tells_append hhead htells)⟩
    | _ => exact order_ranks (by simp [valueOrderRank])
  | .list left, right, hl, hr => by
    cases right with
    | list right =>
      obtain ⟨o, horder, htells⟩ := items_told left right hl hr
      exact ⟨o, horder, tells_same 3 htells⟩
    | _ => exact order_ranks (by simp [valueOrderRank])
  | .path left, right, hl, hr => by
    cases right with
    | path right => exact pathOrder_told hl hr
    | _ => exact order_ranks (by simp [valueOrderRank])
  | .node left, right, _, _ => by
    cases right with
    | node right => exact ⟨_, rfl, tells_same 1 (tells_text _ _)⟩
    | _ => exact order_ranks (by simp [valueOrderRank])
  | .relationship left, right, _, _ => by
    cases right with
    | relationship right => exact ⟨_, rfl, tells_same 2 (tells_text _ _)⟩
    | _ => exact order_ranks (by simp [valueOrderRank])
  | .vector left, right, hl, hr => by
    cases right with
    | vector right => exact ⟨_, rfl, vectorOrder_told hl hr⟩
    | _ => exact order_ranks (by simp [valueOrderRank])
  | .point left, right, hl, hr => by
    cases right with
    | point right => exact ⟨_, rfl, pointOrder_told hl hr⟩
    | _ => exact order_ranks (by simp [valueOrderRank])
  | .zonedDateTime left, right, _, _ => by
    cases right with
    | zonedDateTime right =>
      refine ⟨_, rfl, ?_⟩
      rw [Ordering.then_assoc]
      exact tells_same 7 (tells_cons _ _ (tells_cons _ _ (tells_text _ _)))
    | _ => exact order_ranks (by simp [valueOrderRank])
  | .localDateTime left, right, _, _ => by
    cases right with
    | localDateTime right => exact ⟨_, rfl, tells_same 8 (tells_cons _ _ (tells_nat _ _))⟩
    | _ => exact order_ranks (by simp [valueOrderRank])
  | .date left, right, _, _ => by
    cases right with
    | date right => exact ⟨_, rfl, tells_same 9 (tells_one _ _)⟩
    | _ => exact order_ranks (by simp [valueOrderRank])
  | .time left, right, _, _ => by
    cases right with
    | time right => exact ⟨_, rfl, tells_same 10 (tells_cons _ _ (tells_one _ _))⟩
    | _ => exact order_ranks (by simp [valueOrderRank])
  | .localTime left, right, _, _ => by
    cases right with
    | localTime right => exact ⟨_, rfl, tells_same 11 (tells_nat _ _)⟩
    | _ => exact order_ranks (by simp [valueOrderRank])
  | .duration left, right, _, _ => by
    cases right with
    | duration right => exact ⟨_, rfl, tells_same 12 (tells_one _ _)⟩
    | _ => exact order_ranks (by simp [valueOrderRank])
  | .string left, right, _, _ => by
    cases right with
    | string right => exact ⟨_, rfl, tells_same 13 (tells_text _ _)⟩
    | _ => exact order_ranks (by simp [valueOrderRank])
  | .boolean left, right, _, _ => by
    cases right with
    | boolean right => exact ⟨_, rfl, tells_same 14 (boolean_told _ _)⟩
    | _ => exact order_ranks (by simp [valueOrderRank])
  | .uuid left, right, _, _ => by
    cases right with
    | uuid right => exact ⟨_, rfl, tells_same 15 (tells_bytes _ _)⟩
    | _ => exact order_ranks (by simp [valueOrderRank])
  | .integer left, right, hl, hr => by
    cases right with
    | integer right =>
      refine ⟨_, rfl, ?_⟩
      rw [integerUnits_compare]
      exact tells_same 16 (tells_one _ _)
    | float right =>
      refine ⟨_, rfl, ?_⟩
      rw [sortIntegerFloat_units hl]
      exact tells_same 16 (tells_one _ _)
    | _ => exact order_ranks (by simp [valueOrderRank])
  | .float left, right, hl, hr => by
    cases right with
    | integer right =>
      refine ⟨_, rfl, ?_⟩
      rw [sortIntegerFloat_units hr, ← OrientedOrd.eq_swap]
      exact tells_same 16 (tells_one _ _)
    | float right =>
      refine ⟨_, rfl, ?_⟩
      rw [sortFloat_units]
      exact tells_same 16 (tells_one _ _)
    | _ => exact order_ranks (by simp [valueOrderRank])
  | .null, right, _, _ => by
    cases right with
    | null => exact ⟨.eq, rfl, tells_same 17 tells_nil⟩
    | _ => exact order_ranks (by simp [valueOrderRank])

theorem items_told : ∀ left right : List Value, Value.ValidItems left → Value.ValidItems right →
    ∃ o, sequenceOrder left right = .ok o ∧ Tells o (spellItems left) (spellItems right)
  | [], [], _, _ => ⟨.eq, rfl, tells_one 0 0⟩
  | [], _ :: _, _, _ => ⟨.lt, rfl, tells_first (by decide) [] _⟩
  | _ :: _, [], _, _ => ⟨.gt, rfl, tells_first (by decide) _ []⟩
  | left :: lefts, right :: rights, hl, hr => by
    obtain ⟨o, horder, htells⟩ := order_told left right hl.1 hr.1
    obtain ⟨p, hrest, htells'⟩ := items_told lefts rights hl.2 hr.2
    refine ⟨o.then p, ?_, tells_same 1 (tells_append htells htells')⟩
    unfold sequenceOrder
    rw [horder, hrest]
    cases o <;> rfl

theorem entries_told : ∀ left right all : List (Text × Value),
    left.map Prod.fst = right.map Prod.fst → Finds right all →
      Value.ValidEntries left → Value.ValidEntries right →
        ∃ o, mapOrder left all = .ok o ∧ Tells o (spellEntries left) (spellEntries right)
  | [], [], _, _, _, _, _ => ⟨.eq, rfl, tells_nil⟩
  | (key, left) :: lefts, (key', right) :: rights, all, hkeys, hfinds, hl, hr => by
    obtain ⟨hkey, hothers⟩ := List.cons.inj hkeys
    subst hkey
    have hfound : all.lookup key = some right := hfinds _ (.head _)
    have hrest : Finds rights all :=
      fun entry hentry => hfinds entry (.tail _ hentry)
    obtain ⟨o, horder, htells⟩ := order_told left right hl.1 hr.1
    obtain ⟨p, hothers, htells'⟩ := entries_told lefts rights all hothers hrest hl.2 hr.2
    refine ⟨o.then p, ?_, tells_append htells htells'⟩
    unfold mapOrder
    rw [hfound]
    simp only
    rw [horder, hothers]
    cases o <;> rfl

end

theorem order_of_word {left right : Value} (hl : left.Valid) (hr : right.Valid)
    (h : spell left = spell right) : cypherOrderCompare left right = .ok .eq := by
  obtain ⟨o, horder, htells⟩ := order_told left right hl hr
  rw [h] at htells
  rw [horder, ← compare_of_tells htells, ReflOrd.compare_self]

end Lithograph.Query.Expression
