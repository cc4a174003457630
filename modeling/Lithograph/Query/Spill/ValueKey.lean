/-
  File:      Lithograph/Query/Spill/ValueKey.lean
  Subject:   Which rows have one key (`query/spill/codec.rs`).

  A duration is keyed by its text, which shows its time as a whole.

  * **`distinctRowKey_faithful_iff`**: the keys of two rows tell whether they are equivalent,
    exactly unless they differ in nothing but how durations divide one time.
-/
import Lithograph.Query.Spill.Equivalence
import Lithograph.Query.Spill.NumberKey

namespace Lithograph.Query.Expression

open Library Storage Cypher

/-! ## 1. Families -/

/-- The family a key tells. -/
def keyRank : Json → Nat
  | .array [.string label] => if label = "null".toList then 17 else 18
  | .array [.string label, .object ((_, .string kind) :: _)] =>
    if label ≠ "value".toList then 18
    else if kind = "Vector".toList then 5
    else if kind = "Point".toList then 6
    else if kind = "ZonedDateTime".toList then 7
    else if kind = "LocalDateTime".toList then 8
    else if kind = "Date".toList then 9
    else if kind = "Time".toList then 10
    else if kind = "LocalTime".toList then 11
    else if kind = "Duration".toList then 12
    else if kind = "UUID".toList then 15
    else 18
  | .array (.string label :: _) =>
    if label = "map".toList then 0
    else if label = "node".toList then 1
    else if label = "relationship".toList then 2
    else if label = "list".toList then 3
    else if label = "path".toList then 4
    else if label = "string".toList then 13
    else if label = "boolean".toList then 14
    else if label = "number".toList then 16
    else 18
  | _ => 18

/-- **A key tells the family of its value.** -/
theorem keyRank_key (value : Value) : keyRank (distinctValueKey value) = valueOrderRank value := by
  cases value <;> rfl

variable {left right : Value}

theorem rank_of_equivalent {same : DurationValue → DurationValue → Bool}
    (hl : left.pathFree = true) (hr : right.pathFree = true)
    (h : equivalentBy same left right = true) : valueOrderRank left = valueOrderRank right := by
  cases left <;> cases right <;> first
    | rfl
    | cases h
    | cases hl
    | cases hr

/-! ## 2. Texts -/

theorem taggedKey_inj {label : String} {a b : Json} :
    taggedKey label a = taggedKey label b ↔ a = b := by
  unfold taggedKey
  simp

theorem encodedText_inj {tag : String} {text text' : Text} :
    encodedKey (taggedText tag text) = encodedKey (taggedText tag text') ↔ text = text' := by
  unfold encodedKey taggedText
  simp [taggedKey_inj, canonicalizeJsonNumbers, canonicalizeFields]

theorem zoned_key {left right : Cypher.ZonedDateTimeValue} :
    encodedKey (encodeZonedDateTime left) = encodedKey (encodeZonedDateTime right) ↔
      left.value = right.value ∧ left.zone = right.zone := by
  unfold encodedKey encodeZonedDateTime
  simp [taggedKey_inj, canonicalizeJsonNumbers, canonicalizeFields]

theorem uuid_text_iff {left right : UuidValue} (hl : left.bytes.length = 16)
    (hr : right.bytes.length = 16) :
    uuidText left.bytes = uuidText right.bytes ↔ left = right := by
  constructor
  · intro h
    have hsame := uuid_parse_text hl
    rw [h, uuid_parse_text hr] at hsame
    exact (Except.ok.inj hsame).symm
  · intro h
    rw [h]

theorem written_of_formed {duration : DurationValue} (h : DurationFormed duration) :
    duration.Written := by
  obtain ⟨hmonths, hdays, hseconds, hnanoseconds⟩ := h
  unfold InI64 at hmonths hdays hseconds hnanoseconds
  unfold DurationValue.Written DurationValue.totalNanoseconds
  omega

/-- **Durations have one key exactly when their months, days and time are the same.** -/
theorem duration_text_iff {left right : DurationValue} (hl : DurationFormed left)
    (hr : DurationFormed right) :
    formatDuration left = formatDuration right ↔ sameSpan left right = true := by
  rw [formatDuration_eq_iff (written_of_formed hl) (written_of_formed hr)]
  unfold sameSpan
  simp only [Bool.and_eq_true, beq_iff_eq, and_assoc]

/-! ## 3. Points and vectors -/

/-- A number, as it stands in a key. -/
def numberKey (key : Text) : Json := .object [("$number".toList, .string key)]

theorem numberKey_inj {key key' : Text} : numberKey key = numberKey key' ↔ key = key' := by
  unfold numberKey
  simp

theorem canonicalizeItems_eq (items : List Json) :
    canonicalizeItems items = items.map canonicalizeJsonNumbers := by
  induction items with
  | nil => rfl
  | cons item rest ih => rw [canonicalizeItems, ih, List.map_cons]

theorem coordinates_iff {α : Type} {key : α → Json} {agree : α → α → Bool} {p : α → Prop}
    (hkey : ∀ x y, p x → p y → (key x = key y ↔ agree x y = true)) :
    ∀ {left right : List α}, (∀ x ∈ left, p x) → (∀ y ∈ right, p y) →
      (left.map key = right.map key ↔
        left.length = right.length ∧ ((left.zip right).all fun q => agree q.1 q.2) = true)
  | [], [], _, _ => by simp
  | [], _ :: _, _, _ => by simp
  | _ :: _, [], _, _ => by simp
  | x :: left, y :: right, hl, hr => by
    rw [List.map_cons, List.map_cons, List.cons.injEq, List.zip_cons_cons, List.all_cons,
      Bool.and_eq_true, hkey x y (hl x (.head _)) (hr y (.head _)),
      coordinates_iff hkey (fun a ha => hl a (List.mem_cons_of_mem x ha)) fun b hb =>
        hr b (List.mem_cons_of_mem y hb), List.length_cons, List.length_cons, Nat.succ.injEq]
    exact ⟨fun h => ⟨h.2.1, h.1, h.2.2⟩, fun h => ⟨h.2.1, h.1, h.2.2⟩⟩

theorem finite_key {x y : F64} (hx : isFinite x = true) (hy : isFinite y = true) :
    canonicalizeJsonNumbers (encodeFloat x) = canonicalizeJsonNumbers (encodeFloat y) ↔
      numericEqual x y = true := by
  unfold encodeFloat
  rw [if_pos hx, if_pos hy]
  exact numberKey_inj.trans (by
    rw [floatKey_float, isNan_of_finite hx, Bool.false_and, Bool.false_or])

/-- **Integers have one key exactly when they are one.** -/
theorem integer_key {m n : Int} (hm : InI64 m) (hn : InI64 n) :
    canonicalizeJsonNumbers (encodeInteger m) = canonicalizeJsonNumbers (encodeInteger n) ↔
      m = n := by
  have hnumber : ∀ {k : Int}, -jsSafeInteger ≤ k ∧ k ≤ jsSafeInteger →
      canonicalizeJsonNumbers (encodeInteger k) = numberKey ('i' :: ':' :: integerText k) := by
    intro k hk
    unfold encodeInteger
    rw [if_pos hk, ← floatKey_asFloat hk.1 hk.2]
    rfl
  have htext : ∀ {k : Int}, ¬ (-jsSafeInteger ≤ k ∧ k ≤ jsSafeInteger) →
      canonicalizeJsonNumbers (encodeInteger k) = taggedText "Integer" (integerText k) := by
    intro k hk
    unfold encodeInteger
    rw [if_neg hk]
    rfl
  have hother : ∀ key text, numberKey key ≠ taggedText "Integer" text := by
    intro key text h
    unfold numberKey taggedText at h
    simp at h
  constructor
  · intro h
    by_cases hsafe : -jsSafeInteger ≤ m ∧ m ≤ jsSafeInteger
    · by_cases hsafe' : -jsSafeInteger ≤ n ∧ n ≤ jsSafeInteger
      · rw [hnumber hsafe, hnumber hsafe', numberKey_inj] at h
        exact integerKey_inj hm hn h
      · rw [hnumber hsafe, htext hsafe'] at h
        exact absurd h (hother _ _)
    · by_cases hsafe' : -jsSafeInteger ≤ n ∧ n ≤ jsSafeInteger
      · rw [htext hsafe, hnumber hsafe'] at h
        exact absurd h.symm (hother _ _)
      · rw [htext hsafe, htext hsafe'] at h
        have hsame : integerText m = integerText n := by
          unfold taggedText at h
          simpa using h
        exact integerText_inj (natAbs_lt_of_inI64 hm) (natAbs_lt_of_inI64 hn) hsame
  · intro h
    rw [h]

/-- **Points have one key exactly when they are equal.** -/
theorem point_key {left right : Cypher.PointValue} (hl : PointFormed left)
    (hr : PointFormed right) : encodedKey (encodePoint left) = encodedKey (encodePoint right) ↔
      answersTrue (cypherEquals (.point left) (.point right)) = true := by
  obtain ⟨⟨_, hsystem⟩, hfinite⟩ := hl
  obtain ⟨⟨_, hsystem'⟩, hfinite'⟩ := hr
  have hkeys : encodedKey (encodePoint left) = encodedKey (encodePoint right) ↔
      canonicalizeItems (left.coordinates.map fun x => if isFinite x then .float x else .null) =
          canonicalizeItems
            (right.coordinates.map fun x => if isFinite x then .float x else .null) ∧
        left.crs = right.crs := by
    unfold encodedKey encodePoint
    simp [taggedKey_inj, canonicalizeJsonNumbers, canonicalizeFields]
  have hnumber : ∀ x y : F64, isFinite x = true → isFinite y = true →
      ((canonicalizeJsonNumbers ∘ fun x => if isFinite x then .float x else .null) x =
          (canonicalizeJsonNumbers ∘ fun x => if isFinite x then .float x else .null) y ↔
        numericEqual x y = true) := fun x y hx hy => by
    rw [← finite_key hx hy]
    unfold encodeFloat
    rw [if_pos hx, if_pos hy, Function.comp_apply, Function.comp_apply, if_pos hx, if_pos hy]
  have hcoordinates := coordinates_iff hnumber hfinite hfinite'
  rw [hkeys, canonicalizeItems_eq, canonicalizeItems_eq, List.map_map, List.map_map, hcoordinates]
  unfold cypherEquals
  rw [answersTrue_some]
  simp only [Bool.and_eq_true, beq_iff_eq]
  constructor
  · intro h
    rw [h.2, hsystem'] at hsystem
    have hsrid : right.srid = left.srid := by
      simp only [Option.some.injEq, Prod.mk.injEq] at hsystem
      exact hsystem.2.1
    exact ⟨⟨⟨h.2, hsrid.symm⟩, h.1.1⟩, h.1.2⟩
  · intro h
    exact ⟨⟨h.1.2, h.2⟩, h.1.1.1⟩

theorem coordinateTypeText_inj {c d : VectorCoordinateType} :
    coordinateTypeText c = coordinateTypeText d ↔ c = d := by
  constructor
  · intro h
    cases c <;> cases d <;> first
      | rfl
      | exact absurd h (by decide)
  · intro h
    rw [h]

theorem vector_key_parts {left right : CypherVector} :
    encodedKey (encodeVector left) = encodedKey (encodeVector right) ↔
      left.coordinateType = right.coordinateType ∧
        canonicalizeJsonNumbers (.int left.values.len) =
          canonicalizeJsonNumbers (.int right.values.len) ∧
        (encodeCoordinates left.values).map canonicalizeJsonNumbers =
          (encodeCoordinates right.values).map canonicalizeJsonNumbers := by
  rw [← canonicalizeItems_eq, ← canonicalizeItems_eq, ← coordinateTypeText_inj]
  unfold encodedKey encodeVector
  simp [taggedKey_inj, canonicalizeJsonNumbers, canonicalizeFields]

theorem toInt_inI64 {w : Nat} (hw : w ≤ 64) (v : BitVec w) : InI64 v.toInt := by
  have hlow := BitVec.le_two_mul_toInt (x := v)
  have hhigh := BitVec.two_mul_toInt_lt (x := v)
  have hpow : (2 : Int) ^ w ≤ 2 ^ 64 := pow_le_pow_right₀ (by decide) hw
  unfold InI64
  omega

theorem integers_key {w : Nat} (hw : w ≤ 64) (left right : List (BitVec w)) :
    (left.map fun v => encodeInteger v.toInt).map canonicalizeJsonNumbers =
        (right.map fun v => encodeInteger v.toInt).map canonicalizeJsonNumbers ↔
      left.length = right.length ∧ (left == right) = true := by
  rw [List.map_map, List.map_map]
  have hall := @coordinates_iff _
    (canonicalizeJsonNumbers ∘ fun v : BitVec w => encodeInteger v.toInt)
    (fun x y => x == y) (fun _ => True) (fun x y _ _ => by
      rw [Function.comp_apply, Function.comp_apply,
        integer_key (toInt_inI64 hw x) (toInt_inI64 hw y), beq_iff_eq, BitVec.toInt_inj])
    left right (fun _ _ => trivial) fun _ _ => trivial
  rw [hall]
  constructor
  · intro h
    rw [zip_all_beq h.1] at h
    exact h
  · intro h
    rw [zip_all_beq h.1]
    exact h

theorem floats_key {w : Nat} (convert : BitVec w → F64) {left right : List (BitVec w)}
    (hl : ∀ v ∈ left, isFinite (convert v) = true) (hr : ∀ v ∈ right, isFinite (convert v) = true) :
    (left.map fun v => encodeFloat (convert v)).map canonicalizeJsonNumbers =
        (right.map fun v => encodeFloat (convert v)).map canonicalizeJsonNumbers ↔
      left.length = right.length ∧
        ((left.zip right).all fun q => numericEqual (convert q.1) (convert q.2)) = true := by
  rw [List.map_map, List.map_map]
  exact @coordinates_iff _ (canonicalizeJsonNumbers ∘ fun v : BitVec w => encodeFloat (convert v))
    (fun x y => numericEqual (convert x) (convert y)) (fun v => isFinite (convert v) = true)
    (fun _ _ hx hy => finite_key hx hy) left right hl hr

theorem widen_finite {v : BitVec 32} (h : v.toNat % 2 ^ 31 < 0x7f800000) :
    isFinite (widen v) = true := by
  rw [isFinite_iff, floatMagnitude_widen, decide_eq_true_eq, ← widen_infinite]
  exact widenMagnitude_lt h (Nat.le_refl _)

theorem ofBits_finite {v : BitVec 64} (h : v.toNat % 2 ^ 63 < 0x7ff0000000000000) :
    isFinite (ofBits v) = true := by
  rw [isFinite_iff, decide_eq_true_eq]
  exact h

theorem length_encodeCoordinates (values : VectorValues) :
    (encodeCoordinates values).length = values.len := by
  cases values <;> exact List.length_map _

/-- **Vectors have one key exactly when they are equal.** -/
theorem vector_key {left right : CypherVector}
    (hl : CypherVector.new left.coordinateType left.values = .ok left)
    (hr : CypherVector.new right.coordinateType right.values = .ok right) :
    encodedKey (encodeVector left) = encodedKey (encodeVector right) ↔
      answersTrue (vectorEqual left right) = true := by
  obtain ⟨htype, _, hfinite⟩ := CypherVector.new_ok hl
  obtain ⟨htype', _, hfinite'⟩ := CypherVector.new_ok hr
  rw [vector_key_parts]
  unfold vectorEqual
  by_cases hother : left.coordinateType ≠ right.coordinateType ∨ left.values.len ≠ right.values.len
  · rw [if_pos hother]
    refine iff_of_false (fun h => ?_) Bool.false_ne_true
    have hlength := congrArg List.length h.2.2
    rw [List.length_map, List.length_map, length_encodeCoordinates, length_encodeCoordinates]
      at hlength
    exact hother.elim (fun hne => hne h.1) fun hne => hne hlength
  · rw [if_neg hother, answersTrue_some]
    simp only [ne_eq, not_or, not_not] at hother
    obtain ⟨hsame, hlen⟩ := hother
    have hvalues : (left.coordinateType = right.coordinateType ∧
        canonicalizeJsonNumbers (.int left.values.len) =
          canonicalizeJsonNumbers (.int right.values.len) ∧
        (encodeCoordinates left.values).map canonicalizeJsonNumbers =
          (encodeCoordinates right.values).map canonicalizeJsonNumbers) ↔
        (encodeCoordinates left.values).map canonicalizeJsonNumbers =
          (encodeCoordinates right.values).map canonicalizeJsonNumbers :=
      ⟨fun h => h.2.2, fun h => ⟨hsame, by rw [hlen], h⟩⟩
    rw [hvalues]
    rw [← htype, ← htype'] at hsame
    obtain ⟨_, left⟩ := left
    obtain ⟨_, right⟩ := right
    cases left with
    | i8 left => cases right with
      | i8 right => exact (integers_key (by decide) left right).trans (and_iff_right hlen)
      | _ => cases hsame
    | i16 left => cases right with
      | i16 right => exact (integers_key (by decide) left right).trans (and_iff_right hlen)
      | _ => cases hsame
    | i32 left => cases right with
      | i32 right => exact (integers_key (by decide) left right).trans (and_iff_right hlen)
      | _ => cases hsame
    | i64 left => cases right with
      | i64 right => exact (integers_key (by decide) left right).trans (and_iff_right hlen)
      | _ => cases hsame
    | f32 left => cases right with
      | f32 right =>
        unfold VectorValues.finite at hfinite hfinite'
        simp only [List.all_eq_true, decide_eq_true_eq] at hfinite hfinite'
        exact (floats_key widen (fun v hv => widen_finite (hfinite v hv)) fun v hv =>
          widen_finite (hfinite' v hv)).trans (and_iff_right hlen)
      | _ => cases hsame
    | f64 left => cases right with
      | f64 right =>
        unfold VectorValues.finite at hfinite hfinite'
        simp only [List.all_eq_true, decide_eq_true_eq] at hfinite hfinite'
        exact (floats_key ofBits (fun v hv => ofBits_finite (hfinite v hv)) fun v hv =>
          ofBits_finite (hfinite' v hv)).trans (and_iff_right hlen)
      | _ => cases hsame

/-! ## 4. Keys of values -/

theorem key_of_families (hl : left.pathFree = true) (hr : right.pathFree = true)
    (hrank : valueOrderRank left ≠ valueOrderRank right) :
    distinctValueKey left = distinctValueKey right ↔ equivalentBy sameSpan left right = true := by
  refine iff_of_false (fun h => hrank ?_) fun h => hrank (rank_of_equivalent hl hr h)
  rw [← keyRank_key, ← keyRank_key, h]

section Keys

variable {zones : ZoneDatabase}

theorem number_key (hl : left.Made zones) (hr : right.Made zones)
    (hleft : valueOrderRank left = 16) (hright : valueOrderRank right = 16) :
    distinctValueKey left = distinctValueKey right ↔ equivalentBy sameSpan left right = true := by
  have htagged : ∀ {a b : Text}, taggedKey "number" (.string a) = taggedKey "number" (.string b) ↔
      a = b := by
    intro a b
    rw [taggedKey_inj, Json.string.injEq]
  cases left with
  | integer m => cases right with
    | integer n =>
      unfold distinctValueKey equivalentBy cypherEquals
      rw [htagged, answersTrue_some, beq_iff_eq]
      exact ⟨fun h => integerKey_inj hl hr h, fun h => by rw [h]⟩
    | float y =>
      unfold distinctValueKey equivalentBy cypherEquals
      rw [htagged, answersTrue_some, beq_iff_eq]
      exact floatKey_integer hl y
    | _ => cases hright
  | float x => cases right with
    | integer n =>
      unfold distinctValueKey equivalentBy cypherEquals
      rw [htagged, answersTrue_some, beq_iff_eq]
      exact eq_comm.trans (floatKey_integer hr x)
    | float y =>
      unfold distinctValueKey equivalentBy cypherEquals
      rw [htagged, answersTrue_some]
      exact floatKey_float x y
    | _ => cases hright
  | _ => cases hleft

mutual

/-- **Values of one family have one key exactly when they are equivalent** but for durations. -/
theorem ranked_key : ∀ left right : Value, left.Made zones → right.Made zones →
    left.pathFree = true → right.pathFree = true → valueOrderRank left = valueOrderRank right →
      (distinctValueKey left = distinctValueKey right ↔ equivalentBy sameSpan left right = true)
  | .null, right, _, _, _, _, hrank => by
    cases right with
    | null => exact iff_of_true rfl rfl
    | _ => cases hrank
  | .boolean left, right, _, _, _, _, hrank => by
    cases right with
    | boolean right =>
      unfold distinctValueKey equivalentBy cypherEquals
      rw [taggedKey_inj, Json.bool.injEq, answersTrue_some, beq_iff_eq]
    | _ => cases hrank
  | .integer left, right, hl, hr, _, _, hrank => number_key hl hr rfl hrank.symm
  | .float left, right, hl, hr, _, _, hrank => number_key hl hr rfl hrank.symm
  | .string left, right, _, _, _, _, hrank => by
    cases right with
    | string right =>
      unfold distinctValueKey equivalentBy cypherEquals
      rw [taggedKey_inj, Json.string.injEq, answersTrue_some, beq_iff_eq]
    | _ => cases hrank
  | .list left, right, hl, hr, hpl, hpr, hrank => by
    cases right with
    | list right =>
      unfold distinctValueKey equivalentBy
      rw [taggedKey_inj, Json.array.injEq]
      exact item_keys left right hl hr hpl hpr
    | _ => cases hrank
  | .map left, right, hl, hr, hpl, hpr, hrank => by
    cases right with
    | map right =>
      unfold distinctValueKey equivalentBy
      rw [taggedKey_inj, Json.array.injEq]
      exact entry_keys left right hl.2 hr.2 hpl hpr
    | _ => cases hrank
  | .node left, right, _, _, _, _, hrank => by
    cases right with
    | node right =>
      unfold distinctValueKey equivalentBy cypherEquals
      rw [taggedKey_inj, Json.string.injEq, answersTrue_some, beq_iff_eq]
    | _ => cases hrank
  | .relationship left, right, _, _, _, _, hrank => by
    cases right with
    | relationship right =>
      unfold distinctValueKey equivalentBy cypherEquals
      rw [taggedKey_inj, Json.string.injEq, answersTrue_some, beq_iff_eq]
    | _ => cases hrank
  | .path _, _, _, _, hpl, _, _ => by cases hpl
  | .date left, right, hl, hr, _, _, hrank => by
    cases right with
    | date right =>
      obtain ⟨_, hl⟩ := hl
      obtain ⟨_, hr⟩ := hr
      unfold distinctValueKey equivalentBy cypherEquals
      rw [encodedText_inj, date_text_iff hl hr, answersTrue_some, beq_iff_eq]
    | _ => cases hrank
  | .localTime left, right, hl, hr, _, _, hrank => by
    cases right with
    | localTime right =>
      obtain ⟨_, hl⟩ := hl
      obtain ⟨_, hr⟩ := hr
      unfold distinctValueKey equivalentBy cypherEquals
      rw [encodedText_inj, localTime_text_iff hl hr, answersTrue_some, beq_iff_eq]
    | _ => cases hrank
  | .time left, right, hl, hr, _, _, hrank => by
    cases right with
    | time right =>
      obtain ⟨_, hl⟩ := hl
      obtain ⟨_, hr⟩ := hr
      unfold distinctValueKey equivalentBy cypherEquals
      rw [encodedText_inj, time_text_iff hl hr, answersTrue_some, Bool.and_eq_true, beq_iff_eq,
        beq_iff_eq]
    | _ => cases hrank
  | .localDateTime left, right, hl, hr, _, _, hrank => by
    cases right with
    | localDateTime right =>
      obtain ⟨_, hl⟩ := hl
      obtain ⟨_, hr⟩ := hr
      unfold distinctValueKey equivalentBy cypherEquals
      rw [encodedText_inj, localDateTime_text_iff hl hr, answersTrue_some, Bool.and_eq_true,
        beq_iff_eq, beq_iff_eq]
    | _ => cases hrank
  | .zonedDateTime left, right, hl, hr, _, _, hrank => by
    cases right with
    | zonedDateTime right =>
      obtain ⟨_, hl⟩ := hl
      obtain ⟨_, hr⟩ := hr
      unfold distinctValueKey equivalentBy cypherEquals
      rw [zoned_key, zoned_text_iff hl hr, answersTrue_some, Bool.and_eq_true, Bool.and_eq_true,
        beq_iff_eq, beq_iff_eq, beq_iff_eq]
    | _ => cases hrank
  | .duration left, right, hl, hr, _, _, hrank => by
    cases right with
    | duration right =>
      unfold distinctValueKey equivalentBy
      rw [encodedText_inj, duration_text_iff hl hr]
    | _ => cases hrank
  | .point left, right, hl, hr, _, _, hrank => by
    cases right with
    | point right =>
      unfold distinctValueKey equivalentBy
      exact point_key hl hr
    | _ => cases hrank
  | .vector left, right, hl, hr, _, _, hrank => by
    cases right with
    | vector right =>
      unfold distinctValueKey equivalentBy cypherEquals
      exact vector_key hl hr
    | _ => cases hrank
  | .uuid left, right, hl, hr, _, _, hrank => by
    cases right with
    | uuid right =>
      unfold distinctValueKey equivalentBy cypherEquals
      rw [encodedText_inj, uuid_text_iff hl hr, answersTrue_some, beq_iff_eq]
    | _ => cases hrank

theorem item_keys : ∀ left right : List Value, Value.MadeItems zones left →
    Value.MadeItems zones right → rowPathFree left = true → rowPathFree right = true →
      (distinctItemKeys left = distinctItemKeys right ↔
        itemsEquivalentBy sameSpan left right = true)
  | [], [], _, _, _, _ => iff_of_true rfl rfl
  | [], _ :: _, _, _, _, _ => iff_of_false (fun h => by cases h) Bool.false_ne_true
  | _ :: _, [], _, _, _, _ => iff_of_false (fun h => by cases h) Bool.false_ne_true
  | left :: lefts, right :: rights, hl, hr, hpl, hpr => by
    unfold rowPathFree at hpl hpr
    rw [Bool.and_eq_true] at hpl hpr
    have hfirst : distinctValueKey left = distinctValueKey right ↔
        equivalentBy sameSpan left right = true := by
      by_cases hrank : valueOrderRank left = valueOrderRank right
      · exact ranked_key left right hl.1 hr.1 hpl.1 hpr.1 hrank
      · exact key_of_families hpl.1 hpr.1 hrank
    unfold distinctItemKeys itemsEquivalentBy
    rw [List.cons.injEq, Bool.and_eq_true, hfirst, item_keys lefts rights hl.2 hr.2 hpl.2 hpr.2]

theorem entry_keys : ∀ left right : List (Text × Value), Value.MadeEntries zones left →
    Value.MadeEntries zones right → entriesPathFree left = true → entriesPathFree right = true →
      (distinctEntryKeys left = distinctEntryKeys right ↔
        entriesEquivalentBy sameSpan left right = true)
  | [], [], _, _, _, _ => iff_of_true rfl rfl
  | [], (_, _) :: _, _, _, _, _ => iff_of_false (fun h => by cases h) Bool.false_ne_true
  | (_, _) :: _, [], _, _, _, _ => iff_of_false (fun h => by cases h) Bool.false_ne_true
  | (key, left) :: lefts, (key', right) :: rights, hl, hr, hpl, hpr => by
    unfold entriesPathFree at hpl hpr
    rw [Bool.and_eq_true] at hpl hpr
    have hfirst : distinctValueKey left = distinctValueKey right ↔
        equivalentBy sameSpan left right = true := by
      by_cases hrank : valueOrderRank left = valueOrderRank right
      · exact ranked_key left right hl.1 hr.1 hpl.1 hpr.1 hrank
      · exact key_of_families hpl.1 hpr.1 hrank
    unfold distinctEntryKeys entriesEquivalentBy
    rw [List.cons.injEq, Json.array.injEq, List.cons.injEq, Json.string.injEq, List.cons.injEq,
      Bool.and_eq_true, Bool.and_eq_true, beq_iff_eq, hfirst,
      entry_keys lefts rights hl.2 hr.2 hpl.2 hpr.2]
    simp only [and_true]

end

end Keys

/-! ## 5. Rows -/

mutual

theorem numberFree_canonicalize : ∀ json : Json, NumberFree (canonicalizeJsonNumbers json)
  | .null => trivial
  | .bool _ => trivial
  | .int _ => ⟨trivial, trivial⟩
  | .float _ => ⟨trivial, trivial⟩
  | .string _ => trivial
  | .array items => numberFree_items items
  | .object fields => numberFree_fields fields

theorem numberFree_items : ∀ items : List Json, ItemsNumberFree (canonicalizeItems items)
  | [] => trivial
  | item :: rest => ⟨numberFree_canonicalize item, numberFree_items rest⟩

theorem numberFree_fields : ∀ fields : List (Text × Json),
    FieldsNumberFree (canonicalizeFields fields)
  | [] => trivial
  | (_, item) :: rest => ⟨numberFree_canonicalize item, numberFree_fields rest⟩

end

theorem numberFree_strings {α : Type} (id : α → Text) :
    ∀ items : List α, ItemsNumberFree (items.map fun item => .string (id item))
  | [] => trivial
  | _ :: rest => ⟨trivial, numberFree_strings id rest⟩

mutual

/-- **A key has no numbers.** -/
theorem numberFree_key : ∀ value : Value, NumberFree (distinctValueKey value)
  | .null => ⟨trivial, trivial⟩
  | .list values => ⟨trivial, numberFree_itemKeys values, trivial⟩
  | .map entries => ⟨trivial, numberFree_entryKeys entries, trivial⟩
  | .path path => ⟨trivial, numberFree_strings NodeValue.elementId path.nodes,
      numberFree_strings RelationshipValue.elementId path.relationships, trivial⟩
  | .boolean _ | .integer _ | .float _ | .string _ | .node _ | .relationship _ =>
    ⟨trivial, trivial, trivial⟩
  | .date _ | .localTime _ | .time _ | .localDateTime _ | .zonedDateTime _ | .duration _ | .point _
  | .vector _ | .uuid _ => ⟨trivial, numberFree_canonicalize _, trivial⟩

theorem numberFree_itemKeys : ∀ values : List Value, ItemsNumberFree (distinctItemKeys values)
  | [] => trivial
  | value :: rest => ⟨numberFree_key value, numberFree_itemKeys rest⟩

theorem numberFree_entryKeys : ∀ entries : List (Text × Value),
    ItemsNumberFree (distinctEntryKeys entries)
  | [] => trivial
  | (_, value) :: rest => ⟨⟨trivial, numberFree_key value, trivial⟩, numberFree_entryKeys rest⟩

end

theorem distinctRowKey_inj {floatText : F64 → Text} {left right : List Value} :
    distinctRowKey floatText left = distinctRowKey floatText right ↔
      distinctItemKeys left = distinctItemKeys right := by
  constructor
  · intro h
    have htext := utf8_inj h
    obtain ⟨hkeys, _⟩ := @compact_inj floatText (.array (distinctItemKeys left))
      (.array (distinctItemKeys right)) [] [] (numberFree_itemKeys left) (numberFree_itemKeys right)
      (by rw [List.append_nil, List.append_nil, htext])
    exact Json.array.inj hkeys
  · intro h
    unfold distinctRowKey
    rw [h]

/-- **The keys of two rows tell whether the rows are equivalent**, unless the rows differ in nothing
    but how durations divide one time into seconds and nanoseconds; then they never do. -/
theorem distinctRowKey_faithful_iff {zones : ZoneDatabase} (floatText : F64 → Text)
    {left right : List Value} (hl : Value.MadeItems zones left) (hr : Value.MadeItems zones right)
    (hpl : rowPathFree left = true) (hpr : rowPathFree right = true) :
    (distinctRowKey floatText left = distinctRowKey floatText right ↔
        rowsEquivalent left right = true) ↔
      ¬ (rowsAlike left right = true ∧ rowsDivideApart left right = true) := by
  have hkeys : distinctRowKey floatText left = distinctRowKey floatText right ↔
      rowsAlike left right = true :=
    distinctRowKey_inj.trans (item_keys left right hl hr hpl hpr)
  rw [hkeys, rowsEquivalent_iff]
  by_cases halike : rowsAlike left right = true
  · by_cases hapart : rowsDivideApart left right = true
    · refine iff_of_false (fun h => ?_) fun h => h ⟨halike, hapart⟩
      rw [hapart] at h
      cases (h.mp halike).2
    · rw [Bool.not_eq_true] at hapart
      exact iff_of_true ⟨fun h => ⟨h, hapart⟩, fun h => h.1⟩ fun h => by
        rw [hapart] at h
        cases h.2
  · exact iff_of_true (iff_of_false halike fun h => halike h.1) fun h => halike h.1

/-- An integer, NaN, and a list with a null and a second. -/
def integerRow : List Value :=
  [.integer 1, .float ⟨0x7ff8000000000000⟩, .list [.null, .duration ⟨0, 0, 1, 0⟩]]

/-- The same with a float of the number and another NaN. -/
def floatRow : List Value :=
  [.float ⟨0x3ff0000000000000⟩, .float ⟨0xfff8000000000001⟩,
    .list [.null, .duration ⟨0, 0, 1, 0⟩]]

/-- Rows of numbers of both types have one key and are equivalent. -/
theorem distinctRowKey_faithful_numbers :
    rowsEquivalent integerRow floatRow = true ∧
      (distinctRowKey (fun _ => []) integerRow = distinctRowKey (fun _ => []) floatRow ↔
        rowsEquivalent integerRow floatRow = true) := by
  have hsecond : DurationFormed ⟨0, 0, 1, 0⟩ := by
    unfold DurationFormed InI64
    decide
  have hone : InI64 1 := by
    unfold InI64
    decide
  have hinteger : Value.MadeItems berlinSummer integerRow :=
    ⟨hone, trivial, ⟨trivial, hsecond, trivial⟩, trivial⟩
  have hfloat : Value.MadeItems berlinSummer floatRow :=
    ⟨trivial, trivial, ⟨trivial, hsecond, trivial⟩, trivial⟩
  exact ⟨rfl, (distinctRowKey_faithful_iff (fun _ => []) hinteger hfloat rfl rfl).mpr
    fun h => by cases h.2⟩

/-- **Equal rows have one key**, and rows with one key are equal where there is neither null nor
    NaN and durations divide their time alike. -/
theorem distinctRowKey_equal {zones : ZoneDatabase} (floatText : F64 → Text)
    {left right : List Value} (hl : Value.MadeItems zones left) (hr : Value.MadeItems zones right)
    (hpl : rowPathFree left = true) (hpr : rowPathFree right = true)
    (hformed : Value.FormedItems right) :
    (cypherEquals (.list left) (.list right) = .ok (some true) →
      distinctRowKey floatText left = distinctRowKey floatText right) ∧
    (itemsHaveNullOrNan left = false → rowsDivideApart left right = false →
      distinctRowKey floatText left = distinctRowKey floatText right →
        cypherEquals (.list left) (.list right) = .ok (some true)) := by
  have hkeys : distinctRowKey floatText left = distinctRowKey floatText right ↔
      rowsAlike left right = true :=
    distinctRowKey_inj.trans (item_keys left right hl hr hpl hpr)
  have hrows := rowsEquivalent_iff left right
  refine ⟨fun h => ?_, fun hplain hapart h => ?_⟩
  · exact hkeys.mpr (hrows.mp (equivalent_of_equal (.list left) (.list right) hformed h)).1
  · exact equal_of_equivalent (.list left) (.list right) hformed hplain
      (hrows.mpr ⟨hkeys.mp h, hapart⟩)

/-- An integer and the float of it. -/
theorem distinctRowKey_equal_one : distinctRowKey (fun _ => []) [.integer 1] =
    distinctRowKey (fun _ => []) [.float ⟨0x3ff0000000000000⟩] := by
  have hinteger : Value.MadeItems berlinSummer [.integer 1] :=
    ⟨(by unfold InI64; decide : InI64 1), trivial⟩
  have hfloat : Value.MadeItems berlinSummer [.float ⟨0x3ff0000000000000⟩] := ⟨trivial, trivial⟩
  exact (distinctRowKey_equal _ hinteger hfloat rfl rfl (by exact ⟨trivial, trivial⟩)).1 rfl

/-! ## 6. Where durations divide apart -/

/-- `i64::try_from`. -/
def durationField (n : Int) : QueryResult Int :=
  if -(2 ^ 63) ≤ n ∧ n < 2 ^ 63 then .ok n
  else .error ⟨.type, "duration arithmetic overflow"⟩

/-- `duration_from_i128`: the nanoseconds are less than a second, and not negative. -/
def durationFromI128 (months days seconds nanoseconds : Int) : QueryResult DurationValue := do
  let months ← durationField months
  let days ← durationField days
  let seconds ← durationField (seconds + nanoseconds / 1000000000)
  let nanoseconds ← durationField (nanoseconds % 1000000000)
  pure ⟨months, days, seconds, nanoseconds⟩

/-- `combine_duration`, of a sum. -/
def addDuration (left right : DurationValue) : QueryResult DurationValue :=
  durationFromI128 (left.months + right.months) (left.days + right.days)
    (left.seconds + right.seconds) (left.nanoseconds + right.nanoseconds)

/-- Half a second back, and the same with nothing added: one key, and not equal. -/
theorem distinctRowKey_half_second :
    addDuration ⟨0, 0, 0, -500000000⟩ ⟨0, 0, 0, 0⟩ = .ok ⟨0, 0, -1, 500000000⟩ ∧
      (Value.MadeItems berlinSummer [.duration ⟨0, 0, 0, -500000000⟩] ∧
        Value.MadeItems berlinSummer [.duration ⟨0, 0, -1, 500000000⟩]) ∧
      (rowPathFree [.duration ⟨0, 0, 0, -500000000⟩] = true ∧
        rowPathFree [.duration ⟨0, 0, -1, 500000000⟩] = true) ∧
      distinctRowKey (fun _ => []) [.duration ⟨0, 0, 0, -500000000⟩] =
        distinctRowKey (fun _ => []) [.duration ⟨0, 0, -1, 500000000⟩] ∧
      rowsEquivalent [.duration ⟨0, 0, 0, -500000000⟩] [.duration ⟨0, 0, -1, 500000000⟩] =
        false := by
  have hformed : DurationFormed ⟨0, 0, 0, -500000000⟩ ∧ DurationFormed ⟨0, 0, -1, 500000000⟩ := by
    unfold DurationFormed InI64
    decide
  have hback : Value.MadeItems berlinSummer [.duration ⟨0, 0, 0, -500000000⟩] :=
    ⟨hformed.1, trivial⟩
  have hsum : Value.MadeItems berlinSummer [.duration ⟨0, 0, -1, 500000000⟩] :=
    ⟨hformed.2, trivial⟩
  exact ⟨rfl, ⟨hback, hsum⟩, ⟨rfl, rfl⟩,
    distinctRowKey_inj.mpr ((item_keys _ _ hback hsum rfl rfl).mpr rfl), rfl⟩

end Lithograph.Query.Expression
