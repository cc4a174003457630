/-
  File:      Lithograph/Query/Expression/SortEquality.lean
  Subject:   Equal values in the order of `ORDER BY` (`cypher/value_order.rs`).

  * **`sortOrder`**: the order is a total preorder, and equal values are equal in it except where a
    path is compared with a list.
-/
import Lithograph.Query.Expression.SortOrder

namespace Lithograph.Query.Expression

open Std Library Storage Cypher

/-! ## 1. Equal values -/

mutual

/-- Somewhere in two values a path stands opposite a list. -/
def pathFacesList : Value → Value → Bool
  | .path _, .list _ => true
  | .list _, .path _ => true
  | .list left, .list right => itemsFace left right
  | .map left, .map right => entriesFace left right
  | _, _ => false

def itemsFace : List Value → List Value → Bool
  | left :: lefts, right :: rights => pathFacesList left right || itemsFace lefts rights
  | _, _ => false

def entriesFace : List (Text × Value) → List (Text × Value) → Bool
  | (_, left) :: lefts, (_, right) :: rights => pathFacesList left right || entriesFace lefts rights
  | _, _ => false

end

theorem numericEqual_units {x y : F64} (h : numericEqual x y = true) :
    floatUnits x = floatUnits y := by
  unfold numericEqual at h
  split at h
  · cases h
  next hnan =>
    rw [Bool.or_eq_true, not_or, Bool.not_eq_true, Bool.not_eq_true] at hnan
    refine LawfulEqOrd.eq_of_compare ?_
    rw [← compare_floatOrder hnan.1 hnan.2, beq_iff_eq.mp h, ReflOrd.compare_self]

theorem integerFloatCmp_units {n : Int} (hn : InI64 n) {x : F64}
    (h : integerFloatCmp n x = some .eq) : integerUnits n = floatUnits x := by
  refine LawfulEqOrd.eq_of_compare ?_
  rw [← sortIntegerFloat_units hn]
  unfold sortIntegerFloat
  split
  next hnan =>
    unfold integerFloatCmp at h
    rw [if_pos hnan] at h
    cases h
  · rw [h]
    rfl

variable {α : Type}

theorem flatMap_eq {equal : α → α → Bool} {word : α → Word}
    (h : ∀ x y, equal x y = true → word x = word y) : ∀ {left right : List α},
      left.length = right.length → ((left.zip right).all fun p => equal p.1 p.2) = true →
        left.flatMap word = right.flatMap word
  | [], [], _, _ => rfl
  | x :: left, y :: right, hlength, hall => by
    rw [List.zip_cons_cons, List.all_cons, Bool.and_eq_true] at hall
    rw [List.flatMap_cons, List.flatMap_cons, h x y hall.1,
      flatMap_eq h (Nat.succ.inj hlength) hall.2]

theorem vectorEqual_word {left right : CypherVector} (h : vectorEqual left right = .ok (some true)) :
    spell (.vector left) = spell (.vector right) := by
  unfold vectorEqual at h
  split at h
  · cases h
  next hsame =>
    rw [not_or, not_not, not_not] at hsame
    obtain ⟨htype, hlength⟩ := hsame
    have hcoordinates : spellCoordinates left.values = spellCoordinates right.values := by
      have hone {x y : F64} (heq : numericEqual x y = true) : [floatUnits x] = [floatUnits y] := by
        rw [numericEqual_units heq]
      have h := Option.some.inj (Except.ok.inj h)
      obtain ⟨_, left⟩ := left
      obtain ⟨_, right⟩ := right
      cases left with
      | i8 left => cases right with
        | i8 right => rw [show left = right from beq_iff_eq.mp h]
        | _ => cases h
      | i16 left => cases right with
        | i16 right => rw [show left = right from beq_iff_eq.mp h]
        | _ => cases h
      | i32 left => cases right with
        | i32 right => rw [show left = right from beq_iff_eq.mp h]
        | _ => cases h
      | i64 left => cases right with
        | i64 right => rw [show left = right from beq_iff_eq.mp h]
        | _ => cases h
      | f32 left => cases right with
        | f32 right => exact flatMap_eq (fun _ _ heq => hone heq) hlength h
        | _ => cases h
      | f64 left => cases right with
        | f64 right => exact flatMap_eq (fun _ _ heq => hone heq) hlength h
        | _ => cases h
    unfold spell
    rw [htype, hlength, hcoordinates]

theorem eq_of_zip {id : α → Text} (hid : ∀ x y, id x = id y → x = y) :
    ∀ {left right : List α}, left.length = right.length →
      ((left.zip right).all fun p => id p.1 == id p.2) = true → left = right
  | [], [], _, _ => rfl
  | x :: left, y :: right, hlength, hall => by
    rw [List.zip_cons_cons, List.all_cons, Bool.and_eq_true] at hall
    rw [hid x y (beq_iff_eq.mp hall.1), eq_of_zip hid (Nat.succ.inj hlength) hall.2]

theorem pathIdentityEquals_eq {left right : PathValue} (h : pathIdentityEquals left right = true) :
    left = right := by
  unfold pathIdentityEquals at h
  simp only [Bool.and_eq_true, beq_iff_eq] at h
  obtain ⟨⟨⟨hnodes, hrelationships⟩, hnode⟩, hrelationship⟩ := h
  rw [PathValue.mk.injEq]
  constructor
  · exact eq_of_zip (fun x y heq => congrArg NodeValue.mk heq) hnodes hnode
  · exact eq_of_zip (fun x y heq => congrArg RelationshipValue.mk heq) hrelationships hrelationship

/-! ### Once a null is among the items -/

theorem listEquals_null : ∀ left right : List Value, listEquals left right true ≠ .ok (some true)
  | [], _ => fun h => by cases h
  | _ :: _, [] => fun h => by cases h
  | left :: lefts, right :: rights => by
    unfold listEquals
    match cypherEquals left right with
    | .error _ => exact fun h => by cases h
    | .ok (some false) => exact fun h => by cases h
    | .ok (some true) => exact listEquals_null lefts rights
    | .ok none => exact listEquals_null lefts rights

theorem mapEquals_null : ∀ left all : List (Text × Value), mapEquals left all true ≠ .ok (some true)
  | [], _ => fun h => by cases h
  | (key, left) :: lefts, all => by
    unfold mapEquals
    cases all.lookup key with
    | none => exact fun h => by cases h
    | some right =>
      simp only
      match cypherEquals left right with
      | .error _ => exact fun h => by cases h
      | .ok (some false) => exact fun h => by cases h
      | .ok (some true) => exact mapEquals_null lefts all
      | .ok none => exact mapEquals_null lefts all

variable {left right : Value}

theorem listEquals_cons {lefts rights : List Value}
    (h : listEquals (left :: lefts) (right :: rights) false = .ok (some true)) :
    cypherEquals left right = .ok (some true) ∧ listEquals lefts rights false = .ok (some true) := by
  unfold listEquals at h
  match hfirst : cypherEquals left right with
  | .error _ =>
    rw [hfirst] at h
    cases h
  | .ok (some false) =>
    rw [hfirst] at h
    cases h
  | .ok (some true) =>
    rw [hfirst] at h
    exact ⟨rfl, h⟩
  | .ok none =>
    rw [hfirst] at h
    exact absurd h (listEquals_null lefts rights)

theorem mapEquals_cons {key : Text} {lefts all : List (Text × Value)}
    (hfound : all.lookup key = some right)
    (h : mapEquals ((key, left) :: lefts) all false = .ok (some true)) :
    cypherEquals left right = .ok (some true) ∧ mapEquals lefts all false = .ok (some true) := by
  unfold mapEquals at h
  rw [hfound] at h
  simp only at h
  match hfirst : cypherEquals left right with
  | .error _ =>
    rw [hfirst] at h
    cases h
  | .ok (some false) =>
    rw [hfirst] at h
    cases h
  | .ok (some true) =>
    rw [hfirst] at h
    exact ⟨rfl, h⟩
  | .ok none =>
    rw [hfirst] at h
    exact absurd h (mapEquals_null lefts all)

theorem sequenceOrder_cons_eq {lefts rights : List Value} :
    sequenceOrder (left :: lefts) (right :: rights) = .ok .eq ↔
      cypherOrderCompare left right = .ok .eq ∧ sequenceOrder lefts rights = .ok .eq := by
  rw [sequenceOrder]
  cases cypherOrderCompare left right with
  | error => exact ⟨fun h => (by cases h), fun h => (by cases h.1)⟩
  | ok first =>
    cases first with
    | lt => exact ⟨fun h => (by cases h), fun h => (by cases h.1)⟩
    | gt => exact ⟨fun h => (by cases h), fun h => (by cases h.1)⟩
    | eq => exact ⟨fun h => ⟨rfl, h⟩, fun h => h.2⟩

theorem mapOrder_cons_eq {key : Text} {lefts all : List (Text × Value)}
    (hfound : all.lookup key = some right) : mapOrder ((key, left) :: lefts) all = .ok .eq ↔
      cypherOrderCompare left right = .ok .eq ∧ mapOrder lefts all = .ok .eq := by
  rw [mapOrder, hfound]
  simp only
  cases cypherOrderCompare left right with
  | error => exact ⟨fun h => (by cases h), fun h => (by cases h.1)⟩
  | ok first =>
    cases first with
    | lt => exact ⟨fun h => (by cases h), fun h => (by cases h.1)⟩
    | gt => exact ⟨fun h => (by cases h), fun h => (by cases h.1)⟩
    | eq => exact ⟨fun h => ⟨rfl, h⟩, fun h => h.2⟩

theorem eq_of_answer [BEq α] [LawfulBEq α] {a b : α}
    (h : (.ok (some (a == b)) : ValueResult (Option Bool)) = .ok (some true)) : a = b :=
  beq_iff_eq.mp (Option.some.inj (Except.ok.inj h))

theorem eq_of_answers {α β : Type} [BEq α] [LawfulBEq α] [BEq β] [LawfulBEq β] {a b : α} {c d : β}
    (h : (.ok (some (a == b && c == d)) : ValueResult (Option Bool)) = .ok (some true)) :
    a = b ∧ c = d := by
  have hboth := Option.some.inj (Except.ok.inj h)
  rw [Bool.and_eq_true, beq_iff_eq, beq_iff_eq] at hboth
  exact hboth

theorem pointEqual_word {left right : Cypher.PointValue}
    (h : cypherEquals (.point left) (.point right) = .ok (some true)) :
    spell (.point left) = spell (.point right) := by
  have hsame := Option.some.inj (Except.ok.inj h)
  simp only [Bool.and_eq_true, beq_iff_eq] at hsame
  obtain ⟨⟨⟨_, hsrid⟩, hlength⟩, hall⟩ := hsame
  have hone (x y : F64) (heq : numericEqual x y = true) : [floatUnits x] = [floatUnits y] := by
    rw [numericEqual_units heq]
  unfold spell
  rw [hsrid, flatMap_eq hone hlength hall]

/-- Values without items. -/
def Value.plain : Value → Bool
  | .list _ => false
  | .map _ => false
  | .path _ => false
  | _ => true

theorem pathFacesList_plain (h : left.plain = true) : pathFacesList left right = false := by
  cases left with
  | list _ => cases h
  | map _ => cases h
  | path _ => cases h
  | _ => cases right <;> rfl

theorem word_of_equal : ∀ {left right : Value}, left.Valid → right.Valid → left.plain = true →
    cypherEquals left right = .ok (some true) → spell left = spell right
  | .integer left, right, hl, _, _, h => by
    cases right with
    | integer right => rw [eq_of_answer h]
    | float right =>
      unfold spell
      rw [integerFloatCmp_units hl (eq_of_answer h)]
    | _ => cases h
  | .float left, right, _, hr, _, h => by
    cases right with
    | integer right =>
      unfold spell
      rw [integerFloatCmp_units hr (eq_of_answer h)]
    | float right =>
      unfold spell
      rw [numericEqual_units (Option.some.inj (Except.ok.inj h))]
    | _ => cases h
  | .point left, right, _, _, _, h => by
    cases right with
    | point right => exact pointEqual_word h
    | _ => cases h
  | .vector left, right, _, _, _, h => by
    cases right with
    | vector right => exact vectorEqual_word h
    | _ => cases h
  | .boolean left, right, _, _, _, h => by
    cases right with
    | boolean right => rw [eq_of_answer h]
    | _ => cases h
  | .string left, right, _, _, _, h => by
    cases right with
    | string right => rw [eq_of_answer h]
    | _ => cases h
  | .uuid left, right, _, _, _, h => by
    cases right with
    | uuid right => rw [eq_of_answer h]
    | _ => cases h
  | .duration left, right, _, _, _, h => by
    cases right with
    | duration right => rw [eq_of_answer h]
    | _ => cases h
  | .node left, right, _, _, _, h => by
    cases right with
    | node right =>
      unfold spell
      rw [eq_of_answer h]
    | _ => cases h
  | .relationship left, right, _, _, _, h => by
    cases right with
    | relationship right =>
      unfold spell
      rw [eq_of_answer h]
    | _ => cases h
  | .date left, right, _, _, _, h => by
    cases right with
    | date right =>
      unfold spell
      rw [eq_of_answer h]
    | _ => cases h
  | .localTime left, right, _, _, _, h => by
    cases right with
    | localTime right =>
      unfold spell
      rw [eq_of_answer h]
    | _ => cases h
  | .time left, right, _, _, _, h => by
    cases right with
    | time right =>
      unfold spell
      rw [(eq_of_answers h).1, (eq_of_answers h).2]
    | _ => cases h
  | .localDateTime left, right, _, _, _, h => by
    cases right with
    | localDateTime right =>
      unfold spell
      rw [(eq_of_answers h).1, (eq_of_answers h).2]
    | _ => cases h
  | .zonedDateTime left, right, _, _, _, h => by
    cases right with
    | zonedDateTime right =>
      have hsame := Option.some.inj (Except.ok.inj h)
      simp only [Bool.and_eq_true, beq_iff_eq] at hsame
      unfold spell
      rw [hsame.1.1, hsame.1.2, hsame.2]
    | _ => cases h
  | .null, _, _, _, _, h => by cases h

theorem order_of_plain (hl : left.Valid) (hr : right.Valid) (hplain : left.plain = true)
    (h : cypherEquals left right = .ok (some true)) :
    cypherOrderCompare left right = .ok .eq ↔ pathFacesList left right = false :=
  ⟨fun _ => pathFacesList_plain hplain, fun _ => order_of_word hl hr (word_of_equal hl hr hplain h)⟩

mutual

/-- **Equal values are equal in the order, except where a path is opposite a list.** -/
theorem order_of_equal : ∀ left right : Value, left.Valid → right.Valid →
    cypherEquals left right = .ok (some true) →
      (cypherOrderCompare left right = .ok .eq ↔ pathFacesList left right = false)
  | .list left, right, hl, hr, h => by
    cases right with
    | list right =>
      unfold cypherEquals at h
      split at h
      · cases h
      next hlength =>
        have hlength : left.length = right.length := by simpa using hlength
        exact items_of_equal left right hl hr hlength h
    | path right =>
      exact ⟨fun hsame => (by cases hsame), fun hface => (by cases hface)⟩
    | _ => cases h
  | .path left, right, hl, hr, h => by
    cases right with
    | path right =>
      have hsame := pathIdentityEquals_eq (Option.some.inj (Except.ok.inj h))
      exact ⟨fun _ => rfl, fun _ => order_of_word hl hr (by rw [hsame])⟩
    | list right =>
      exact ⟨fun hsame => (by cases hsame), fun hface => (by cases hface)⟩
    | _ => cases h
  | .map left, right, hl, hr, h => by
    cases right with
    | map right =>
      unfold cypherEquals at h
      split at h
      · cases h
      next hsame =>
        rw [Bool.or_eq_true, not_or, bne_iff_ne, bne_iff_ne, not_not, not_not] at hsame
        rw [cypherOrderCompare_map, hsame.1, hsame.2, ReflOrd.compare_self,
          (compareLex_eq fun _ _ => textCmp_eq).mpr rfl]
        exact entries_of_equal left right right hl.2 hr.2 hsame.2 (finds_self hr.1) h
    | _ => cases h
  | .null, right, hl, hr, h | .boolean _, right, hl, hr, h | .integer _, right, hl, hr, h
  | .float _, right, hl, hr, h | .string _, right, hl, hr, h | .node _, right, hl, hr, h
  | .relationship _, right, hl, hr, h | .date _, right, hl, hr, h | .localTime _, right, hl, hr, h
  | .time _, right, hl, hr, h | .localDateTime _, right, hl, hr, h
  | .zonedDateTime _, right, hl, hr, h | .duration _, right, hl, hr, h
  | .point _, right, hl, hr, h | .vector _, right, hl, hr, h | .uuid _, right, hl, hr, h =>
    order_of_plain hl hr rfl h

theorem items_of_equal : ∀ left right : List Value, Value.ValidItems left → Value.ValidItems right →
    left.length = right.length → listEquals left right false = .ok (some true) →
      (sequenceOrder left right = .ok .eq ↔ itemsFace left right = false)
  | [], [], _, _, _, _ => ⟨fun _ => rfl, fun _ => rfl⟩
  | left :: lefts, right :: rights, hl, hr, hlength, h => by
    obtain ⟨hfirst, hrest⟩ := listEquals_cons h
    rw [sequenceOrder_cons_eq, order_of_equal left right hl.1 hr.1 hfirst,
      items_of_equal lefts rights hl.2 hr.2 (Nat.succ.inj hlength) hrest, ← Bool.or_eq_false_iff]
    rfl

theorem entries_of_equal : ∀ left right all : List (Text × Value),
    Value.ValidEntries left → Value.ValidEntries right → left.map Prod.fst = right.map Prod.fst →
      Finds right all → mapEquals left all false = .ok (some true) →
        (mapOrder left all = .ok .eq ↔ entriesFace left right = false)
  | [], [], _, _, _, _, _, _ => ⟨fun _ => rfl, fun _ => rfl⟩
  | (key, left) :: lefts, (key', right) :: rights, all, hl, hr, hkeys, hfinds, h => by
    obtain ⟨hkey, hothers⟩ := List.cons.inj hkeys
    subst hkey
    have hfound : all.lookup key = some right := hfinds _ (.head _)
    have hmore : Finds rights all :=
      fun entry hentry => hfinds entry (.tail _ hentry)
    obtain ⟨hfirst, hrest⟩ := mapEquals_cons hfound h
    rw [mapOrder_cons_eq hfound, order_of_equal left right hl.1 hr.1 hfirst,
      entries_of_equal lefts rights all hl.2 hr.2 hothers hmore hrest, ← Bool.or_eq_false_iff]
    rfl

end

/-! ## 2. The arithmetic of the keys -/

/-- A step of 128 bits. -/
def checked128 (n : Int) : Option Int := if -(2 ^ 127) ≤ n ∧ n < 2 ^ 127 then some n else none

theorem checked128_eq {n : Int} (h : -(2 ^ 127) ≤ n ∧ n < 2 ^ 127) :
    checked128 n = some n := if_pos h

/-- `duration_sort_key`, step by step. -/
def durationSortKeyChecked (duration : DurationValue) : Option Int := do
  let months ← checked128 (duration.months * 48699)
  let months ← checked128 (months * (86400 * 1000000000))
  let days ← checked128 (duration.days * 1600)
  let days ← checked128 (days * (86400 * 1000000000))
  let key ← checked128 (months + days)
  let seconds ← checked128 (duration.seconds * 1600)
  let seconds ← checked128 (seconds * 1000000000)
  let key ← checked128 (key + seconds)
  let nanoseconds ← checked128 (duration.nanoseconds * 1600)
  checked128 (key + nanoseconds)

/-- **The key of a duration fits.** -/
theorem durationSortKeyChecked_eq {duration : DurationValue} (h : DurationFormed duration) :
    durationSortKeyChecked duration = some (durationSortKey duration) := by
  obtain ⟨hmonths, hdays, hseconds, hnanoseconds⟩ := h
  unfold InI64 at hmonths hdays hseconds hnanoseconds
  unfold durationSortKeyChecked durationSortKey
  simp (disch := omega) only [checked128_eq, Option.bind_eq_bind, Option.bind_some]

/-- `instant_key`, step by step. -/
def instantKeyChecked (time : TimeValue) : Option Int := do
  let offset ← checked128 (time.offsetSeconds * 1000000000)
  checked128 (time.localNanoseconds - offset)

/-- **The instant of a time fits.** -/
theorem instantKeyChecked_eq {time : TimeValue} (h : TimeFormed time) :
    instantKeyChecked time = some time.instantKey := by
  obtain ⟨hlocal, hlow, hhigh⟩ := h
  unfold instantKeyChecked TimeValue.instantKey
  simp (disch := omega) only [checked128_eq, Option.bind_eq_bind, Option.bind_some]

/-! ## 3. The order -/

/-- Values as their constructors make them. -/
abbrev ValidValue := { value : Value // value.Valid }

/-- The order of two values, where the comparison has an answer. -/
def orderOf (left right : Value) : Ordering :=
  match cypherOrderCompare left right with
  | .ok ordering => ordering
  | .error _ => .eq

theorem orderOf_told (hl : left.Valid) (hr : right.Valid) :
    cypherOrderCompare left right = .ok (orderOf left right) ∧
      Tells (orderOf left right) (spell left) (spell right) := by
  obtain ⟨o, horder, htells⟩ := order_told left right hl hr
  unfold orderOf
  rw [horder]
  exact ⟨rfl, htells⟩

/-- **The order of `ORDER BY`**: it has an answer for any two values, it is a total preorder, its
    arithmetic fits, and equal values are equal in it exactly where no path stands opposite a list. -/
theorem sortOrder : TotalPreorder (fun left right : ValidValue => orderOf left.1 right.1) ∧
    (∀ left right : ValidValue, cypherOrderCompare left.1 right.1 = .ok (orderOf left.1 right.1) ∧
      (cypherEquals left.1 right.1 = .ok (some true) →
        (orderOf left.1 right.1 = .eq ↔ pathFacesList left.1 right.1 = false))) ∧
    (∀ duration, DurationFormed duration →
      durationSortKeyChecked duration = some (durationSortKey duration)) ∧
    (∀ time, TimeFormed time → instantKeyChecked time = some time.instantKey) ∧
    (∀ x : F64, ¬ 0x43e0000000000000 ≤ floatOrder x → ¬ floatOrder x < -0x43e0000000000000 →
      InI64 (floatTrunc x)) := by
  refine ⟨preorder_of_spelled (fun value => spell value.1) fun left right =>
      (orderOf_told left.2 right.2).2, fun left right => ?_,
    fun _ h => durationSortKeyChecked_eq h, fun _ h => instantKeyChecked_eq h,
    fun _ hhigh hlow => floatTrunc_inRange hhigh hlow⟩
  have horder := (orderOf_told left.2 right.2).1
  refine ⟨horder, fun hequal => ?_⟩
  rw [← order_of_equal left.1 right.1 left.2 right.2 hequal, horder]
  exact ⟨fun h => by rw [h], fun h => Except.ok.inj h⟩

/-- An integer and a float of one number. -/
theorem sortOrder_one : orderOf (.integer 1) (.float ⟨0x3ff0000000000000⟩) = .eq :=
  ((sortOrder.2.1 ⟨.integer 1, by unfold Value.Valid InI64; decide⟩
    ⟨.float ⟨0x3ff0000000000000⟩, trivial⟩).2 (by decide)).mpr
    rfl

/-- A path and the list of what it runs through are equal, and the path is sorted behind the list. -/
theorem path_behind_list : ∃ left right : Value, left.Valid ∧ right.Valid ∧
    cypherEquals left right = .ok (some true) ∧ cypherOrderCompare left right = .ok .gt :=
  ⟨.path ⟨[⟨['a']⟩, ⟨['b']⟩], [⟨['r']⟩]⟩,
    .list [.node ⟨['a']⟩, .relationship ⟨['r']⟩, .node ⟨['b']⟩],
    rfl, ⟨trivial, trivial, trivial, trivial⟩, rfl, rfl⟩

end Lithograph.Query.Expression
