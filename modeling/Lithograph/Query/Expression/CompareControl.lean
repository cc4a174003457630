/-
  File:      Lithograph/Query/Expression/CompareControl.lean
  Subject:   Comparisons with cancellation checkpoints (`query/expression/compare_control.rs`).

  The order is written a second time, with a checkpoint in each loop; they can only end a comparison
  and are left out.

  * **`cypherOrderCompareControlled_eq`**: both give one order.
-/
import Lithograph.Library.Utf8
import Lithograph.Query.Expression.Value

namespace Lithograph.Query.Expression

open Library Storage Cypher

/-! ## 1. The controlled comparisons -/

/-- The `chunks` of a string, of 64 KiB each. -/
def byteChunks (bytes : Bytes) : List Bytes := chunks (64 * 1024) bytes.length bytes

def bytesCompare (left right : Text) : Ordering :=
  (zipOrder (fun x y : Bytes => compare x y) (byteChunks (Text.utf8 left))
    (byteChunks (Text.utf8 right))).then
      (compare (Text.utf8 left).length (Text.utf8 right).length)

def mapKeys (left right : List (Text × Value)) : Ordering :=
  (zipOrder bytesCompare (left.map Prod.fst) (right.map Prod.fst)).then
    (compare left.length right.length)

/-- `path_order`. -/
def pathOrderControlled (left right : PathValue) : QueryResult Ordering :=
  if pathBroken left || pathBroken right then
    .error ⟨.type, "PATH requires exactly one more node than relationship"⟩
  else .ok ((firstDifference (fun index =>
      bytesCompare (pathIdentity left index) (pathIdentity right index))
    (List.range (min (pathLength left) (pathLength right)))).then
      (compare (pathLength left) (pathLength right)))

/-- `vector_order` and `vector_coordinate_order`. -/
def vectorOrderControlled (left right : CypherVector) : Ordering :=
  (compare (vectorTypeRank left.coordinateType) (vectorTypeRank right.coordinateType)).then
    ((compare left.values.len right.values.len).then
      (match left.values, right.values with
        | .i8 left, .i8 right => zipOrder signedCmp left right
        | .i16 left, .i16 right => zipOrder signedCmp left right
        | .i32 left, .i32 right => zipOrder signedCmp left right
        | .i64 left, .i64 right => zipOrder signedCmp left right
        | .f32 left, .f32 right => zipOrder (fun x y => sortFloat (widen x) (widen y)) left right
        | .f64 left, .f64 right => zipOrder (fun x y => sortFloat (ofBits x) (ofBits y)) left right
        | _, _ => .eq))

mutual

def cypherOrderCompareControlled (left right : Value) : QueryResult Ordering :=
  match left, right with
  | .string left, .string right => .ok (bytesCompare left right)
  | .node left, .node right => .ok (bytesCompare left.elementId right.elementId)
  | .relationship left, .relationship right => .ok (bytesCompare left.elementId right.elementId)
  | .list left, .list right => do
    match ← listOrder left right with
    | .eq => pure (compare left.length right.length)
    | ordering => pure ordering
  | .map left, .map right =>
    match (compare left.length right.length).then (mapKeys left right) with
    | .eq => entriesOrder left right
    | ordering => .ok ordering
  | .path left, .path right => pathOrderControlled left right
  | .vector left, .vector right => .ok (vectorOrderControlled left right)
  | left, right => ofValue (cypherOrderCompare left right)

/-- The loop of `list_order`. -/
def listOrder : List Value → List Value → QueryResult Ordering
  | left :: lefts, right :: rights => do
    match ← cypherOrderCompareControlled left right with
    | .eq => listOrder lefts rights
    | ordering => pure ordering
  | _, _ => .ok .eq

/-- The loop of `map_order` over the values. -/
def entriesOrder : List (Text × Value) → List (Text × Value) → QueryResult Ordering
  | (_, left) :: lefts, (_, right) :: rights => do
    match ← cypherOrderCompareControlled left right with
    | .eq => entriesOrder lefts rights
    | ordering => pure ordering
  | _, _ => .ok .eq

end

/-! ## 2. Strings -/

/-- **Chunks do not change the order of bytes.** -/
theorem bytesCompare_eq (left right : Text) : bytesCompare left right = textCmp left right :=
  chunks_then_length (by decide) _ _ (Nat.le_refl _) (Nat.le_refl _)

theorem utf8_inj {left right : Text} (h : Text.utf8 left = Text.utf8 right) : left = right :=
  encode_inj h

theorem textCmp_eq {left right : Text} : textCmp left right = .eq ↔ left = right := by
  unfold textCmp
  rw [Std.LawfulEqOrd.compare_eq_iff_eq]
  exact ⟨utf8_inj, fun h => by rw [h]⟩

/-! ## 3. Binary32 numbers -/

variable {m n : Nat}

theorem widen_subnormal (hpos : 0 < m) (hm : m < 2 ^ 23) :
    (m.log2 + 874) * 2 ^ 52 ≤ widenMagnitude m ∧ widenMagnitude m < (m.log2 + 875) * 2 ^ 52 := by
  have hne : m ≠ 0 := Nat.ne_of_gt hpos
  have hhigh : m < 2 ^ (m.log2 + 1) := Nat.lt_log2_self
  have htop : m.log2 < 23 := (Nat.log2_lt hne).mpr hm
  have hrest : (m - 2 ^ m.log2) * 2 ^ (52 - m.log2) < 2 ^ 52 := by
    have hsplit : 2 ^ 52 = 2 ^ m.log2 * 2 ^ (52 - m.log2) := by
      rw [← Nat.pow_add]
      congr 1
      omega
    rw [hsplit]
    refine Nat.mul_lt_mul_of_pos_right ?_ (Nat.two_pow_pos _)
    omega
  unfold widenMagnitude
  rw [if_neg hne, if_pos hm]
  omega

theorem widen_normal (hlow : 2 ^ 23 ≤ m) (hhigh : m < 0x7f800000) :
    widenMagnitude m = m * 2 ^ 29 + 896 * 2 ^ 52 := by
  unfold widenMagnitude
  rw [if_neg (by omega), if_neg (by omega), if_pos hhigh]

theorem widen_infinite : widenMagnitude 0x7f800000 = 0x7ff0000000000000 := by
  decide

theorem widen_subnormal_lt (hpos : 0 < m) (hmn : m < n) (hn : n < 2 ^ 23) :
    widenMagnitude m < widenMagnitude n := by
  have hm := widen_subnormal hpos (hmn.trans hn)
  have hn' := widen_subnormal (hpos.trans hmn) hn
  have hmne : m ≠ 0 := Nat.ne_of_gt hpos
  have hnne : n ≠ 0 := Nat.ne_of_gt (hpos.trans hmn)
  have hlow : 2 ^ m.log2 ≤ m := Nat.log2_self_le hmne
  by_cases htop : m.log2 = n.log2
  · have hgrow : (m - 2 ^ m.log2) * 2 ^ (52 - m.log2) < (n - 2 ^ m.log2) * 2 ^ (52 - m.log2) :=
      Nat.mul_lt_mul_of_pos_right (by omega) (Nat.two_pow_pos _)
    unfold widenMagnitude
    rw [if_neg hmne, if_neg hnne, if_pos (hmn.trans hn), if_pos hn, ← htop]
    omega
  · have hlt : m.log2 < n.log2 := by
      refine Nat.lt_of_le_of_ne ?_ htop
      rw [Nat.le_log2 hnne]
      exact hlow.trans (Nat.le_of_lt hmn)
    omega

/-- **A wider number keeps the order.** -/
theorem widenMagnitude_lt (hmn : m < n) (hn : n ≤ 0x7f800000) :
    widenMagnitude m < widenMagnitude n := by
  have hpos : 0 < widenMagnitude n := by
    rcases Nat.lt_or_ge n (2 ^ 23) with hsub | hnormal
    · have := (widen_subnormal (by omega) hsub).1
      omega
    · rcases Nat.lt_or_eq_of_le hn with hfinite | rfl
      · rw [widen_normal hnormal hfinite]
        omega
      · rw [widen_infinite]
        omega
  rcases Nat.eq_zero_or_pos m with rfl | hm
  · exact hpos
  rcases Nat.lt_or_ge n (2 ^ 23) with hsub | hnormal
  · exact widen_subnormal_lt hm hmn hsub
  · have hn' : (897 : Nat) * 2 ^ 52 ≤ widenMagnitude n := by
      rcases Nat.lt_or_eq_of_le hn with hfinite | rfl
      · rw [widen_normal hnormal hfinite]
        omega
      · rw [widen_infinite]
        omega
    rcases Nat.lt_or_ge m (2 ^ 23) with hsub | hnormal'
    · have htop : m.log2 < 23 := (Nat.log2_lt (Nat.ne_of_gt hm)).mpr hsub
      have := (widen_subnormal hm hsub).2
      omega
    · rw [widen_normal hnormal' (by omega)]
      rcases Nat.lt_or_eq_of_le hn with hfinite | rfl
      · rw [widen_normal hnormal hfinite]
        omega
      · rw [widen_infinite]
        omega

theorem widenMagnitude_inj (hm : m ≤ 0x7f800000) (hn : n ≤ 0x7f800000) :
    widenMagnitude m = widenMagnitude n ↔ m = n := by
  constructor
  · intro h
    rcases Nat.lt_trichotomy m n with hlt | heq | hgt
    · exact absurd h (Nat.ne_of_lt (widenMagnitude_lt hlt hn))
    · exact heq
    · exact absurd h (Nat.ne_of_gt (widenMagnitude_lt hgt hm))
  · intro h
    rw [h]

theorem widenMagnitude_bound (m : Nat) : widenMagnitude m < 2 ^ 63 := by
  rcases Nat.lt_or_ge 0x7f800000 m with hnan | hfinite
  · unfold widenMagnitude
    rw [if_neg (by omega), if_neg (by omega), if_neg (by omega), if_neg (by omega)]
    omega
  · rcases Nat.lt_or_eq_of_le hfinite with hlt | rfl
    · have := widenMagnitude_lt hlt (Nat.le_refl _)
      rw [widen_infinite] at this
      omega
    · rw [widen_infinite]
      omega

variable (x : BitVec 32)

theorem widen_bits : (widen x).bits.toNat =
    (if 2 ^ 31 ≤ x.toNat then 2 ^ 63 else 0) + widenMagnitude (x.toNat % 2 ^ 31) := by
  have hbound := widenMagnitude_bound (x.toNat % 2 ^ 31)
  unfold widen
  rw [UInt64.toNat_ofNat']
  split <;> omega

theorem floatMagnitude_widen : floatMagnitude (widen x) = widenMagnitude (x.toNat % 2 ^ 31) := by
  have hbound := widenMagnitude_bound (x.toNat % 2 ^ 31)
  unfold floatMagnitude
  rw [widen_bits]
  split <;> omega

theorem floatNegative_widen : floatNegative (widen x) = decide (2 ^ 31 ≤ x.toNat) := by
  have hbound := widenMagnitude_bound (x.toNat % 2 ^ 31)
  unfold floatNegative
  rw [widen_bits, decide_eq_decide]
  split <;> omega

theorem isNan_iff (x : F64) : x.isNan = decide (0x7ff0000000000000 < floatMagnitude x) := by
  have hmask : (x.bits &&& 0x7fffffffffffffff).toNat = floatMagnitude x := by
    exact Nat.and_two_pow_sub_one_eq_mod x.bits.toNat 63
  unfold F64.isNan
  rw [decide_eq_decide, gt_iff_lt, UInt64.lt_iff_toNat_lt, hmask]
  rfl

theorem isNan_widen : (widen x).isNan = decide (0x7f800000 < x.toNat % 2 ^ 31) := by
  rw [isNan_iff, floatMagnitude_widen, decide_eq_decide, ← widen_infinite]
  constructor
  · intro h
    by_contra hle
    rcases Nat.lt_or_eq_of_le (Nat.not_lt.mp hle) with hlt | heq
    · exact absurd h (Nat.not_lt.mpr (Nat.le_of_lt (widenMagnitude_lt hlt (Nat.le_refl _))))
    · rw [heq] at h
      exact absurd h (Nat.lt_irrefl _)
  · intro h
    rw [widen_infinite]
    unfold widenMagnitude
    rw [if_neg (by omega), if_neg (by omega), if_neg (by omega), if_neg (by omega)]
    omega

theorem numericEqual_widen (left right : BitVec 32) :
    numericEqual (widen left) (widen right) = equalF32 left right := by
  unfold numericEqual equalF32
  rw [isNan_widen, isNan_widen]
  by_cases hl : 0x7f800000 < left.toNat % 2 ^ 31
  · simp only [hl, decide_true, Bool.true_or, if_true, Bool.not_true, Bool.false_and]
  by_cases hr : 0x7f800000 < right.toNat % 2 ^ 31
  · simp only [hr, decide_true, Bool.or_true, if_true, Bool.not_true, Bool.and_false, Bool.false_and]
  have hzero : widenMagnitude 0 = 0 := rfl
  have hboth := widenMagnitude_inj (Nat.not_lt.mp hl) (Nat.not_lt.mp hr)
  have hleft := widenMagnitude_inj (Nat.not_lt.mp hl) (Nat.zero_le _)
  simp only [hl, hr, decide_false, Bool.or_self, Bool.false_eq_true, if_false, Bool.not_false,
    Bool.true_and]
  rw [Bool.eq_iff_iff, beq_iff_eq, beq_iff_eq]
  unfold floatOrder
  rw [floatMagnitude_widen, floatMagnitude_widen, floatNegative_widen, floatNegative_widen]
  simp only [decide_eq_true_eq]
  -- the zeros are equal whatever their signs
  split <;> split <;> omega

/-! ## 4. Vectors and paths -/

theorem zip_all_beq {α : Type} [BEq α] [LawfulBEq α] : ∀ {left right : List α},
    left.length = right.length → ((left.zip right).all fun p => p.1 == p.2) = (left == right)
  | [], [], _ => rfl
  | a :: left, b :: right, h => by
    rw [List.zip_cons_cons, List.all_cons, zip_all_beq (Nat.succ.inj h)]
    rfl

/-- **Vectors are in the same order.** -/
theorem vectorOrderControlled_eq (left right : CypherVector) :
    vectorOrderControlled left right = vectorOrderCompare left right := by
  unfold vectorOrderControlled vectorOrderCompare
  cases htype : compare (vectorTypeRank left.coordinateType) (vectorTypeRank right.coordinateType)
    with
  | lt => rfl
  | gt => rfl
  | eq =>
    cases hlen : compare left.values.len right.values.len with
    | lt => rfl
    | gt => rfl
    | eq =>
      have hlength : left.values.len = right.values.len := Std.LawfulEqOrd.eq_of_compare hlen
      obtain ⟨_, left⟩ := left
      obtain ⟨_, right⟩ := right
      cases left with
      | i8 left => cases right with
        | i8 right => exact zipOrder_eq hlength
        | _ => rfl
      | i16 left => cases right with
        | i16 right => exact zipOrder_eq hlength
        | _ => rfl
      | i32 left => cases right with
        | i32 right => exact zipOrder_eq hlength
        | _ => rfl
      | i64 left => cases right with
        | i64 right => exact zipOrder_eq hlength
        | _ => rfl
      | f32 left => cases right with
        | _ => rfl
      | f64 left => cases right with
        | _ => rfl

theorem pathOrderControlled_eq (left right : PathValue) :
    pathOrderControlled left right = ofValue (pathOrderCompare left right) := by
  unfold pathOrderControlled pathOrderCompare
  simp only [bytesCompare_eq]
  split <;> rfl

/-! ## 5. Maps -/

theorem mapKeys_eq (left right : List (Text × Value)) :
    mapKeys left right = List.compareLex textCmp (left.map Prod.fst) (right.map Prod.fst) := by
  unfold mapKeys
  rw [show bytesCompare = textCmp from funext fun a => funext fun b => bytesCompare_eq a b,
    ← zipOrder_then_length, List.length_map, List.length_map]

/-- A list of entries finds, at each of some entries, its value. -/
def Finds (entries all : List (Text × Value)) : Prop :=
  ∀ entry ∈ entries, all.lookup entry.1 = some entry.2

theorem finds_self : ∀ {entries : List (Text × Value)}, (entries.map Prod.fst).Nodup →
    Finds entries entries
  | [], _ => fun _ hentry => absurd hentry List.not_mem_nil
  | (key, value) :: rest, h => by
    rw [List.map_cons, List.nodup_cons] at h
    intro entry hentry
    rcases List.mem_cons.mp hentry with rfl | hrest
    · exact List.lookup_cons_self
    · have hne : entry.1 ≠ key := by
        intro heq
        exact h.1 (heq ▸ (List.mem_map_of_mem hrest : Prod.fst entry ∈ rest.map Prod.fst))
      rw [List.lookup_cons, beq_false_of_ne hne]
      exact finds_self h.2 entry hrest

/-! ## 6. Order -/

theorem cypherOrderCompare_map (left right : List (Text × Value)) :
    cypherOrderCompare (.map left) (.map right) =
      match (compare left.length right.length).then
          (List.compareLex textCmp (left.map Prod.fst) (right.map Prod.fst)) with
      | .eq => mapOrder left right
      | ordering => .ok ordering := by
  have hrank : ¬ valueOrderRank (.map left) ≠ valueOrderRank (.map right) := fun hne => hne rfl
  unfold cypherOrderCompare
  refine (if_neg hrank).trans ?_
  cases hordering : (compare left.length right.length).then
      (List.compareLex textCmp (left.map Prod.fst) (right.map Prod.fst)) <;>
    simp only [hordering]

mutual

/-- **The order is the same in both comparisons.** -/
theorem cypherOrderCompareControlled_eq : ∀ (left right : Value), right.Formed →
    cypherOrderCompareControlled left right = ofValue (cypherOrderCompare left right)
  | .string left, right, _ => by
    cases right with
    | string right => exact congrArg Except.ok (bytesCompare_eq left right)
    | _ => rfl
  | .list left, right, h => by
    cases right with
    | list right => exact listOrder_eq left right h
    | _ => rfl
  | .map left, right, h => by
    cases right with
    | map right =>
      unfold cypherOrderCompareControlled
      rw [cypherOrderCompare_map, mapKeys_eq]
      cases hordering : (compare left.length right.length).then
          (List.compareLex textCmp (left.map Prod.fst) (right.map Prod.fst)) with
      | lt => rfl
      | gt => rfl
      | eq =>
        have hkeys : left.map Prod.fst = right.map Prod.fst :=
          (compareLex_eq fun _ _ => textCmp_eq).mp (Ordering.then_eq_eq.mp hordering).2
        exact entriesOrder_eq left right right hkeys (finds_self h.1) h.2
    | _ => rfl
  | .vector left, right, _ => by
    cases right with
    | vector right => exact congrArg Except.ok (vectorOrderControlled_eq left right)
    | _ => rfl
  | .node left, right, _ => by
    cases right with
    | node right => exact congrArg Except.ok (bytesCompare_eq left.elementId right.elementId)
    | _ => rfl
  | .relationship left, right, _ => by
    cases right with
    | relationship right => exact congrArg Except.ok (bytesCompare_eq left.elementId right.elementId)
    | _ => rfl
  | .path left, right, _ => by
    cases right with
    | path right => exact pathOrderControlled_eq left right
    | _ => rfl
  | .null, right, _ | .boolean _, right, _ | .integer _, right, _ | .float _, right, _
  | .date _, right, _ | .localTime _, right, _ | .time _, right, _ | .localDateTime _, right, _
  | .zonedDateTime _, right, _ | .duration _, right, _ | .point _, right, _ | .uuid _, right, _ => by
    cases right <;> rfl

theorem listOrder_eq : ∀ (left right : List Value), Value.FormedItems right →
    (do match ← listOrder left right with
      | .eq => pure (compare left.length right.length)
      | ordering => pure ordering) = ofValue (sequenceOrder left right)
  | [], [], _ => rfl
  | [], _ :: _, _ => rfl
  | _ :: _, [], _ => rfl
  | left :: lefts, right :: rights, h => by
    unfold listOrder sequenceOrder
    rw [cypherOrderCompareControlled_eq left right h.1, List.length_cons, List.length_cons,
      compare_succ]
    match cypherOrderCompare left right with
    | .error _ => rfl
    | .ok .lt => rfl
    | .ok .gt => rfl
    | .ok .eq => exact listOrder_eq lefts rights h.2

theorem entriesOrder_eq : ∀ (left right all : List (Text × Value)),
    left.map Prod.fst = right.map Prod.fst → Finds right all → Value.FormedEntries right →
      entriesOrder left right = ofValue (mapOrder left all)
  | [], _, _, _, _, _ => rfl
  | (key, left) :: lefts, (key', right) :: rights, all, hkeys, hfinds, h => by
    obtain ⟨hkey, hothers⟩ := List.cons.inj hkeys
    subst hkey
    have hfound : all.lookup key = some right := hfinds _ (.head _)
    have hrest : Finds rights all :=
      fun entry hentry => hfinds entry (.tail _ hentry)
    unfold entriesOrder mapOrder
    rw [hfound, cypherOrderCompareControlled_eq left right h.1]
    simp only
    match cypherOrderCompare left right with
    | .error _ => rfl
    | .ok .lt => rfl
    | .ok .gt => rfl
    | .ok .eq => exact entriesOrder_eq lefts rights all hothers hrest h.2

end

end Lithograph.Query.Expression
