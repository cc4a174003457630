/-
  File:      Lithograph/Query/Schema/EqualityTuple.lean
  Subject:   Tuples of property values under a uniqueness constraint (`query/schema/equality.rs`,
             `query/schema/validate/controlled.rs`).

  An owner brings the keys of its properties, each with its length in front.

  * **`sameKey_iff`**: two stored values have one key exactly when they are equal.
  * **`uniqueness_exact`**: a constraint refuses a snapshot exactly when two owners have equal
    tuples.
-/
import Lithograph.Query.Schema.Affected
import Lithograph.Query.Schema.EqualityAgree
import Lithograph.Query.Schema.EqualityControl

namespace Lithograph.Query

open Library Storage Expression

variable {p q : PropertyValue} {id : Int} {kind : OwnerKind} {property : Text}

/-! ## 1. Values -/

section Values

variable {zones : Cypher.ZoneDatabase} {wrapLongitude : F64 → F64} {left right : Cypher.Value}

theorem sameKey_scalar {p' q' : PropertyValue} {equal : Bool}
    (hl : Stored zones wrapLongitude left p) (hr : Stored zones wrapLongitude right q)
    (hp : Cypher.checkedProperty p' = .ok (some p)) (hq : Cypher.checkedProperty q' = .ok (some q))
    (hkp : equalityKey p' = (typedKey p').map some) (hkq : equalityKey q' = (typedKey q').map some)
    (hcp : p'.canonical = p') (hcq : q'.canonical = q')
    (hequal : cypherEquals (operand left) (operand right) = .ok (some equal))
    (h : p' = q' ↔ equal = true) : SameKey p q ↔ CypherEqual left right := by
  cases Cypher.checkedProperty_some hp
  cases Cypher.checkedProperty_some hq
  unfold CypherEqual
  rw [sameKey_typed hl.inRange hr.inRange hl.canonical hkp hkq, hcp, hcq, h, hequal,
    Except.ok.injEq, Option.some.injEq]

theorem storageComponents_ok {value : Cypher.ZonedDateTimeValue} {parts : Int × Nat × Text}
    (h : Cypher.ofValue value.storageComponents = .ok parts) :
    parts = (value.instantNanoseconds / 1000000000,
      (value.instantNanoseconds % 1000000000).toNat, value.zone) := by
  rw [Cypher.ofValue_ok] at h
  unfold Cypher.ZonedDateTimeValue.storageComponents at h
  obtain ⟨_, _, h⟩ := bind_eq_ok.mp h
  cases h
  rfl

theorem zoned_iff {x y : Cypher.ZonedDateTimeValue}
    (hx : ∃ text, Cypher.ZonedDateTimeValue.parse zones text x.zone = .ok x)
    (hy : ∃ text, Cypher.ZonedDateTimeValue.parse zones text y.zone = .ok y) :
    (⟨x.instantNanoseconds / 1000000000, (x.instantNanoseconds % 1000000000).toNat, x.zone⟩ :
        Storage.ZonedDateTimeValue) =
      ⟨y.instantNanoseconds / 1000000000, (y.instantNanoseconds % 1000000000).toNat, y.zone⟩ ↔
        (x.instantNanoseconds == y.instantNanoseconds && x.offsetSeconds == y.offsetSeconds &&
          x.zone == y.zone) = true := by
  rw [Storage.ZonedDateTimeValue.mk.injEq, Bool.and_eq_true, Bool.and_eq_true, beq_iff_eq,
    beq_iff_eq, beq_iff_eq]
  constructor
  · intro ⟨hseconds, hnanos, hzone⟩
    have hinstant : x.instantNanoseconds = y.instantNanoseconds := by omega
    obtain ⟨_, hx⟩ := hx
    obtain ⟨_, hy⟩ := hy
    rw [hzone] at hx
    have hsame := Cypher.ZonedDateTimeValue.eq_of_instant hx hy hinstant
    rw [hsame]
    exact ⟨⟨rfl, rfl⟩, rfl⟩
  · intro ⟨⟨hinstant, _⟩, hzone⟩
    rw [hinstant, hzone]
    exact ⟨rfl, rfl, rfl⟩

theorem systems_iff {x y : Cypher.PointValue}
    (hx : ∃ crs coordinates, Cypher.PointValue.new wrapLongitude crs coordinates = .ok x)
    (hy : ∃ crs coordinates, Cypher.PointValue.new wrapLongitude crs coordinates = .ok y) :
    x.crs = y.crs ↔ x.srid = y.srid := by
  obtain ⟨crs, coordinates, hx⟩ := hx
  obtain ⟨crs', coordinates', hy⟩ := hy
  obtain ⟨_, _, hsystem, _⟩ := Cypher.PointValue.new_ok hx
  obtain ⟨_, _, hsystem', _⟩ := Cypher.PointValue.new_ok hy
  have hname := (Cypher.referenceSystem_ok hsystem).2
  have hname' := (Cypher.referenceSystem_ok hsystem').2
  constructor
  · intro h
    have hsame := (Cypher.referenceSystem_ok hsystem).1
    rw [h, (Cypher.referenceSystem_ok hsystem').1] at hsame
    simp only [Option.some.injEq, Prod.mk.injEq] at hsame
    exact hsame.2.1.symm
  · intro h
    rcases hname with ⟨hs, hn⟩ | ⟨hs, hn⟩ | ⟨hs, hn⟩ | ⟨hs, hn⟩ <;>
      rcases hname' with ⟨hs', hn'⟩ | ⟨hs', hn'⟩ | ⟨hs', hn'⟩ | ⟨hs', hn'⟩ <;>
      first
        | omega
        | rw [hn, hn']

theorem sameKey_single (hl : Stored zones wrapLongitude left p)
    (hr : Stored zones wrapLongitude right q) (hlist : ∀ values, left ≠ .list values) :
    SameKey p q ↔ CypherEqual left right := by
  by_cases hrank : valueOrderRank (operand left) = valueOrderRank (operand right)
  case neg => exact agree_of_families hl hr hrank
  have hpstored := hl.stored
  have hqstored := hr.stored
  have hprange := hl.inRange
  have hqrange := hr.inRange
  have hpcanonical := hl.canonical
  have hpmade := hl.constructed
  have hqmade := hr.constructed
  unfold Cypher.propertyFromValue at hpstored hqstored
  cases left with
  | null | map | node | relationship | path => cases hpstored
  | list values => exact absurd rfl (hlist values)
  | boolean x => cases right with
    | boolean y =>
      exact sameKey_scalar hl hr hpstored hqstored rfl rfl rfl rfl rfl
        (by rw [PropertyValue.boolean.injEq, beq_iff_eq])
    | _ => cases hrank
  | string x => cases right with
    | string y =>
      exact sameKey_scalar hl hr hpstored hqstored rfl rfl rfl rfl rfl
        (by rw [PropertyValue.string.injEq, beq_iff_eq])
    | _ => cases hrank
  | integer m => cases right with
    | integer n =>
      cases Cypher.checkedProperty_some hpstored
      cases Cypher.checkedProperty_some hqstored
      unfold CypherEqual operand cypherEquals
      rw [sameKey_integer, Except.ok.injEq, Option.some.injEq, beq_iff_eq]
      exact ⟨fun h => (numericKey_inj hqrange hprange (Option.some.inj (Except.ok.inj h))).symm,
        fun h => by rw [h]; rfl⟩
    | float y =>
      cases Cypher.checkedProperty_some hpstored
      cases Cypher.checkedProperty_some hqstored
      unfold CypherEqual operand cypherEquals
      rw [sameKey_integer_float hprange, Except.ok.injEq, Option.some.injEq, beq_iff_eq]
    | _ => cases hrank
  | float x => cases right with
    | integer n =>
      cases Cypher.checkedProperty_some hpstored
      cases Cypher.checkedProperty_some hqstored
      unfold CypherEqual operand cypherEquals
      rw [sameKey_comm, sameKey_integer_float hqrange, Except.ok.injEq, Option.some.injEq,
        beq_iff_eq]
    | float y =>
      cases Cypher.checkedProperty_some hpstored
      cases Cypher.checkedProperty_some hqstored
      unfold CypherEqual operand cypherEquals
      rw [sameKey_floats hpcanonical, Except.ok.injEq, Option.some.injEq]
    | _ => cases hrank
  | date x => cases right with
    | date y =>
      exact sameKey_scalar hl hr hpstored hqstored rfl rfl rfl rfl rfl
        (by rw [PropertyValue.date.injEq, beq_iff_eq])
    | _ => cases hrank
  | localTime x => cases right with
    | localTime y =>
      exact sameKey_scalar hl hr hpstored hqstored rfl rfl rfl rfl rfl
        (by rw [PropertyValue.localTime.injEq, beq_iff_eq])
    | _ => cases hrank
  | time x => cases right with
    | time y =>
      refine sameKey_scalar hl hr hpstored hqstored rfl rfl rfl rfl rfl ?_
      rw [PropertyValue.time.injEq, Bool.and_eq_true, beq_iff_eq, beq_iff_eq,
        Cypher.TimeValue.instantKey, Cypher.TimeValue.instantKey]
      omega
    | _ => cases hrank
  | localDateTime x => cases right with
    | localDateTime y =>
      exact sameKey_scalar hl hr hpstored hqstored rfl rfl rfl rfl rfl
        (by rw [PropertyValue.localDateTime.injEq, Bool.and_eq_true, beq_iff_eq, beq_iff_eq])
    | _ => cases hrank
  | zonedDateTime x => cases right with
    | zonedDateTime y =>
      obtain ⟨parts, hparts, hpstored⟩ := bind_eq_ok.mp hpstored
      obtain ⟨parts', hparts', hqstored⟩ := bind_eq_ok.mp hqstored
      cases storageComponents_ok hparts
      cases storageComponents_ok hparts'
      exact sameKey_scalar hl hr hpstored hqstored rfl rfl rfl rfl rfl (by
        rw [PropertyValue.zonedDateTime.injEq]
        exact zoned_iff hpmade hqmade)
    | _ => cases hrank
  | duration x => cases right with
    | duration y =>
      refine sameKey_scalar hl hr hpstored hqstored rfl rfl rfl rfl rfl ?_
      rw [PropertyValue.duration.injEq, beq_iff_eq, Cypher.DurationValue.mk.injEq]
    | _ => cases hrank
  | point x => cases right with
    | point y =>
      cases Cypher.checkedProperty_some hpstored
      cases Cypher.checkedProperty_some hqstored
      unfold CypherEqual operand cypherEquals
      rw [sameKey_points hprange hqrange, Except.ok.injEq, Option.some.injEq,
        @forall₂_iff_all _ _ (fun x y => numericEqual x y)]
      have hsystems := systems_iff hpmade hqmade
      simp only [Bool.and_eq_true, beq_iff_eq, Int.natCast_inj]
      exact ⟨fun h => ⟨⟨⟨hsystems.mpr h.1, h.1⟩, h.2.1⟩, h.2.2⟩,
        fun h => ⟨h.1.1.2, h.1.2, h.2⟩⟩
    | _ => cases hrank
  | vector x => cases right with
    | vector y =>
      cases Cypher.checkedProperty_some hpstored
      cases Cypher.checkedProperty_some hqstored
      unfold CypherEqual operand cypherEquals
      exact sameKey_vectors ⟨hpmade, hprange, hpcanonical⟩ ⟨hqmade, hqrange, hr.canonical⟩
    | _ => cases hrank
  | uuid x => cases right with
    | uuid y =>
      refine sameKey_scalar hl hr hpstored hqstored rfl rfl rfl rfl rfl ?_
      rw [PropertyValue.uuid.injEq, beq_iff_eq, Cypher.UuidValue.mk.injEq]
    | _ => cases hrank

/-! ## 2. Lists -/

theorem listEquals_iff : ∀ {left right : List Expression.Value} {hasNull : Bool},
    left.length = right.length → (listEquals left right hasNull = .ok (some true) ↔
      hasNull = false ∧ List.Forall₂ (fun x y => cypherEquals x y = .ok (some true)) left right)
  | [], [], hasNull, _ => by
    unfold listEquals unlessNull
    cases hasNull with
    | true => exact iff_of_false (fun h => by cases h) fun h => by cases h.1
    | false => exact iff_of_true rfl ⟨rfl, .nil⟩
  | [], _ :: _, _, h => by cases h
  | _ :: _, [], _, h => by cases h
  | x :: left, y :: right, hasNull, hlength => by
    have hrest := @listEquals_iff left right hasNull (Nat.succ.inj hlength)
    have hnull := @listEquals_iff left right true (Nat.succ.inj hlength)
    unfold listEquals
    rw [List.forall₂_cons]
    cases hfirst : cypherEquals x y with
    | error e => exact iff_of_false (fun h => by cases h) fun h => by cases h.2.1
    | ok answer =>
      match answer with
      | some true => exact hrest.trans ⟨fun h => ⟨h.1, rfl, h.2⟩, fun h => ⟨h.1, h.2.2⟩⟩
      | some false => exact iff_of_false (fun h => by cases h) fun h => by cases h.2.1
      | none => exact iff_of_false (fun h => by cases (hnull.mp h).1) fun h => by cases h.2.1

/-- The items of a stored list, each stored itself. -/
inductive StoredItems (zones : Cypher.ZoneDatabase) (wrapLongitude : F64 → F64) :
    List Cypher.Value → List PropertyValue → Prop
  | nil : StoredItems zones wrapLongitude [] []
  | cons {value : Cypher.Value} {property : PropertyValue} {values : List Cypher.Value}
      {properties : List PropertyValue} (hfirst : Stored zones wrapLongitude value property)
      (hsingle : ∀ values, value ≠ .list values)
      (hrest : StoredItems zones wrapLongitude values properties) :
      StoredItems zones wrapLongitude (value :: values) (property :: properties)

/-- **Items are keyed alike exactly when they are equal.** -/
theorem sameKey_items : ∀ {left right : List Cypher.Value} {ps qs : List PropertyValue},
    StoredItems zones wrapLongitude left ps → StoredItems zones wrapLongitude right qs →
      (List.Forall₂ SameKey ps qs ↔
        List.Forall₂ (fun x y => cypherEquals x y = .ok (some true)) (operandItems left)
          (operandItems right))
  | _, _, _, _, .nil, .nil => iff_of_true .nil .nil
  | _, _, _, _, .nil, .cons _ _ _ => iff_of_false (fun h => by cases h) fun h => by cases h
  | _, _, _, _, .cons _ _ _, .nil => iff_of_false (fun h => by cases h) fun h => by cases h
  | _, _, _, _, .cons hfirst hsingle hrest, .cons hfirst' _ hrest' => by
    unfold operandItems
    rw [List.forall₂_cons, List.forall₂_cons, sameKey_single hfirst hfirst' hsingle,
      sameKey_items hrest hrest']
    rfl

theorem storedItems_of_list : ∀ {values : List Cypher.Value} {properties : List PropertyValue}
    {items : List Bytes} {family : Nat}, Cypher.AllConstructed zones wrapLongitude values →
      Cypher.propertyList values = .ok properties → AllInRange properties →
        canonicalItems properties = .ok items →
          (∀ property ∈ properties, Cypher.listElementFamily property = some family) →
            StoredItems zones wrapLongitude values properties
  | [], _, _, _, _, h, _, _, _ => by
    cases h
    exact .nil
  | value :: rest, _, _, _, hmade, h, hrange, hcanonical, hfamily => by
    unfold Cypher.propertyList at h
    obtain ⟨stored, hstored, h⟩ := bind_eq_ok.mp h
    obtain ⟨first, hfirst, h⟩ := bind_eq_ok.mp h
    obtain ⟨others, hothers, h⟩ := bind_eq_ok.mp h
    cases h
    cases stored with
    | none => cases hfirst
    | some property =>
      cases hfirst
      unfold canonicalItems at hcanonical
      obtain ⟨bytes, hbytes, hcanonical⟩ := bind_eq_ok.mp hcanonical
      obtain ⟨itemBytes, hitems, _⟩ := bind_eq_ok.mp hcanonical
      refine .cons ⟨hmade.1, hstored, hrange.1, bytes, hbytes⟩ (fun values hvalue => ?_)
        (storedItems_of_list hmade.2 hothers hrange.2 hitems fun property hproperty =>
          hfamily property (.tail _ hproperty))
      have hnone := hfamily _ (.head _)
      rw [hvalue] at hstored
      unfold Cypher.propertyFromValue at hstored
      obtain ⟨properties, _, hstored⟩ := bind_eq_ok.mp hstored
      cases Cypher.checkedProperty_some hstored
      cases hnone

theorem listFamily {properties : List PropertyValue}
    (h : Cypher.checkedProperty (.list properties) = .ok (some (.list properties))) :
    ∃ family, ∀ property ∈ properties, Cypher.listElementFamily property = some family := by
  unfold Cypher.checkedProperty at h
  obtain ⟨_, hvalid, _⟩ := bind_eq_ok.mp h
  rw [refuseWhen_ok, Bool.not_eq_false'] at hvalid
  cases properties with
  | nil => exact ⟨0, fun property h => absurd h List.not_mem_nil⟩
  | cons first rest =>
    simp only [Cypher.isPropertyValue] at hvalid
    cases hfamily : Cypher.listElementFamily first with
    | none =>
      rw [hfamily] at hvalid
      cases hvalid
    | some family =>
      rw [hfamily] at hvalid
      refine ⟨family, fun property hproperty => ?_⟩
      exact beq_iff_eq.mp (List.all_eq_true.mp hvalid property hproperty)

theorem sameKey_lists {ps qs : List PropertyValue}
    (hshort : ∀ key, equalityKey (.list ps) = .ok (some key) → Addressable key)
    (hshort' : ∀ key, equalityKey (.list qs) = .ok (some key) → Addressable key) :
    SameKey (.list ps) (.list qs) ↔ List.Forall₂ SameKey ps qs := by
  have hcommon := @forall₂_common _ _ _ (fun value part => equalityKey value = .ok (some part))
    (fun value part => equalityKey value = .ok (some part)) ps qs
  rw [show List.Forall₂ SameKey ps qs ↔ _ from hcommon.symm]
  have hparts : ∀ {values : List PropertyValue} {parts : List Bytes},
      (∀ key, equalityKey (.list values) = .ok (some key) → Addressable key) →
      List.Forall₂ (fun value part => equalityKey value = .ok (some part)) values parts →
        ∀ part ∈ parts, Addressable part := by
    intro values parts hshort h part hpart
    have hwhole := hshort _ (by
      unfold equalityKey
      exact listKey_iff.mpr ⟨parts, h, rfl⟩)
    have hle := length_part_le hpart
    unfold Addressable at hwhole ⊢
    rw [List.length_append] at hwhole
    omega
  constructor
  · intro ⟨key, h, h'⟩
    unfold equalityKey at h h'
    obtain ⟨parts, hkeys, rfl⟩ := listKey_iff.mp h
    obtain ⟨parts', hkeys', heq⟩ := listKey_iff.mp h'
    have hsame := keyParts_inj (hparts hshort hkeys) (hparts hshort' hkeys')
      (List.append_cancel_left heq)
    rw [← hsame] at hkeys'
    exact ⟨parts, hkeys, hkeys'⟩
  · intro ⟨parts, hkeys, hkeys'⟩
    unfold SameKey equalityKey
    exact ⟨_, listKey_iff.mpr ⟨parts, hkeys, rfl⟩, listKey_iff.mpr ⟨parts, hkeys', rfl⟩⟩

theorem sameKey_values (hl : Stored zones wrapLongitude left p)
    (hr : Stored zones wrapLongitude right q)
    (hshort : ∀ key, equalityKey p = .ok (some key) → Addressable key)
    (hshort' : ∀ key, equalityKey q = .ok (some key) → Addressable key) :
    SameKey p q ↔ CypherEqual left right := by
  by_cases hrank : valueOrderRank (operand left) = valueOrderRank (operand right)
  case neg => exact agree_of_families hl hr hrank
  by_cases hlist : ∀ values, left ≠ .list values
  case pos => exact sameKey_single hl hr hlist
  simp only [ne_eq, not_forall, not_not] at hlist
  obtain ⟨ls, rfl⟩ := hlist
  cases right with
  | list rs =>
    have hpstored := hl.stored
    have hqstored := hr.stored
    unfold Cypher.propertyFromValue at hpstored hqstored
    obtain ⟨ps, hps, hpstored⟩ := bind_eq_ok.mp hpstored
    obtain ⟨qs, hqs, hqstored⟩ := bind_eq_ok.mp hqstored
    cases Cypher.checkedProperty_some hpstored
    cases Cypher.checkedProperty_some hqstored
    have hitems : ∀ {values : List Cypher.Value} {properties : List PropertyValue},
        Stored zones wrapLongitude (.list values) (.list properties) →
        Cypher.propertyList values = .ok properties →
        Cypher.checkedProperty (.list properties) = .ok (some (.list properties)) →
          StoredItems zones wrapLongitude values properties := by
      intro values properties h hlist hchecked
      obtain ⟨bytes, hbytes⟩ := h.canonical
      unfold PropertyValue.canonicalBytes at hbytes
      obtain ⟨items, hitems, _⟩ := bind_eq_ok.mp hbytes
      obtain ⟨family, hfamily⟩ := listFamily hchecked
      exact storedItems_of_list h.constructed hlist h.inRange hitems hfamily
    have hleft := hitems hl hps hpstored
    have hright := hitems hr hqs hqstored
    have hequal : CypherEqual (.list ls) (.list rs) ↔
        (if (operandItems ls).length != (operandItems rs).length then .ok (some false)
          else listEquals (operandItems ls) (operandItems rs) false) = .ok (some true) := by
      unfold CypherEqual operand
      rw [cypherEquals]
    rw [sameKey_lists hshort hshort', sameKey_items hleft hright, hequal]
    split
    · rename_i hlength
      rw [bne_iff_ne] at hlength
      exact iff_of_false (fun h => hlength h.length_eq) fun h => by cases h
    · rename_i hlength
      rw [bne_iff_ne, not_not] at hlength
      rw [listEquals_iff hlength]
      exact ⟨fun h => ⟨rfl, h⟩, fun h => h.2⟩
  | _ => cases hrank

end Values

/-! ## 3. Tuples -/

/-- A key as a byte vector in memory. -/
abbrev KeyBytes := { key : Bytes // Addressable key }

/-- The combined key of a tuple: how many parts it has, and the parts with their lengths. -/
def tupleKey (parts : List Bytes) : Bytes := u64Bytes parts.length ++ parts.flatMap keyPart

/-- **The combined key tells tuples of keys apart.** -/
theorem tupleKey_inj {parts parts' : List Bytes} (h : ∀ part ∈ parts, Addressable part)
    (h' : ∀ part ∈ parts', Addressable part) (heq : tupleKey parts = tupleKey parts') :
    parts = parts' := by
  unfold tupleKey at heq
  obtain ⟨_, hparts⟩ := List.append_inj heq (by
    rw [u64Bytes, u64Bytes, leBytes_length, leBytes_length])
  exact keyParts_inj h h' hparts

mutual

theorem equalityKey_ok : ∀ {value : PropertyValue} {bytes : Bytes},
    value.canonicalBytes = .ok bytes → ∃ key, equalityKey value = .ok key
  | .integer value, _, _ => ⟨_, rfl⟩
  | .float value, bytes, h => by
    rcases floatKey_split value with ⟨_, hkey⟩ | ⟨_, _, _, hkey⟩ | ⟨_, _, hkey⟩
    · exact ⟨_, hkey⟩
    · exact ⟨_, hkey⟩
    · exact ⟨_, hkey.trans (typedKey_some.mpr ⟨bytes, h, rfl⟩)⟩
  | .list values, _, h => by
    unfold PropertyValue.canonicalBytes at h
    obtain ⟨items, hitems, _⟩ := bind_eq_ok.mp h
    unfold equalityKey
    exact listKey_ok hitems _
  | .point point, _, _ => ⟨pointKey point, by unfold equalityKey; rfl⟩
  | .vector vector, bytes, h => by
    unfold equalityKey vectorKey
    rw [ofStorage_ok.mpr h, ok_bind]
    have htyped : ∃ key, (typedKey (.vector vector)).map some = .ok key :=
      ⟨_, typedKey_some.mpr ⟨bytes, h, rfl⟩⟩
    cases vector.coordinateType with
    | f32 => exact ⟨_, rfl⟩
    | f64 => exact ⟨_, rfl⟩
    | _ => exact htyped
  | .boolean _, bytes, h | .string _, bytes, h | .date _, bytes, h | .localTime _, bytes, h
  | .time _ _, bytes, h | .localDateTime _ _, bytes, h | .zonedDateTime _, bytes, h
  | .duration _ _ _ _, bytes, h | .uuid _, bytes, h => by
    unfold equalityKey
    exact ⟨_, typedKey_some.mpr ⟨bytes, h, rfl⟩⟩

theorem listKey_ok : ∀ {values : List PropertyValue} {items : List Bytes},
    canonicalItems values = .ok items → ∀ start : Bytes, ∃ key, listKey values start = .ok key
  | [], _, _, start => ⟨some start, by unfold listKey; rfl⟩
  | value :: rest, _, h, start => by
    unfold canonicalItems at h
    obtain ⟨bytes, hbytes, h⟩ := bind_eq_ok.mp h
    obtain ⟨others, hothers, _⟩ := bind_eq_ok.mp h
    obtain ⟨key, hkey⟩ := equalityKey_ok hbytes
    unfold listKey
    rw [hkey, ok_bind]
    cases key with
    | none => exact ⟨none, rfl⟩
    | some part => exact listKey_ok hothers _

end

theorem nonReflexiveKey_ne {value : PropertyValue} :
    equalityKey value ≠ .ok (some (nonReflexiveKey id)) := by
  intro h
  have hletter : ∀ {key : Bytes}, key.head? = some 110 → equalityKey value = .ok (some key) →
      ∃ n, key = numericKey n := by
    intro key hhead h
    have htyped : ∀ {value : PropertyValue}, (typedKey value).map some ≠ .ok (some key) := by
      intro value h
      obtain ⟨bytes, _, rfl⟩ := typedKey_some.mp h
      have hbad : some (116 : UInt8) = some 110 := hhead
      exact absurd hbad (by decide)
    unfold equalityKey at h
    cases value with
    | integer n => exact ⟨n, (Option.some.inj (Except.ok.inj h)).symm⟩
    | float x =>
      simp only at h
      split at h
      · cases h
      · split at h
        · exact ⟨_, (Option.some.inj (Except.ok.inj h)).symm⟩
        · exact absurd h htyped
    | list values =>
      obtain ⟨parts, _, rfl⟩ := listKey_iff.mp h
      have hbad : some (108 : UInt8) = some 110 := hhead
      exact absurd hbad (by decide)
    | point point =>
      obtain ⟨bits, _, rfl⟩ := pointKey_iff.mp (Except.ok.inj h)
      have hbad : some (112 : UInt8) = some 110 := hhead
      exact absurd hbad (by decide)
    | vector vector =>
      simp only at h
      obtain ⟨bytes, hbytes, _⟩ := bind_eq_ok.mp h
      rw [ofStorage_ok] at hbytes
      have hfloats : ∀ {width n : Nat} {normalize : Nat → Option Nat} {packed : Bytes},
          (.ok (coordinateKeys width normalize n packed (vectorHead vector)) :
            QueryResult (Option Bytes)) = .ok (some key) → False := by
        intro width n normalize packed h
        obtain ⟨bits, _, rfl⟩ := coordinateKeys_iff.mp (Except.ok.inj h)
        have hbad : some (118 : UInt8) = some 110 := hhead
        exact absurd hbad (by decide)
      cases htype : vector.coordinateType with
      | f32 =>
        rw [vectorKey_floats hbytes (.inl ⟨htype, rfl, rfl⟩)] at h
        exact (hfloats h).elim
      | f64 =>
        rw [vectorKey_floats hbytes (.inr ⟨htype, rfl, rfl⟩)] at h
        exact (hfloats h).elim
      | _ =>
        rw [vectorKey_integers hbytes (by rw [htype]; decide) (by rw [htype]; decide)] at h
        exact absurd h htyped
    | _ => exact absurd h htyped
  obtain ⟨n, hn⟩ := hletter rfl h
  have hsecond : some (111 : UInt8) = some 117 := congrArg (fun key : Bytes => key[1]?) hn
  exact absurd hsecond (by decide)

theorem uniquenessFrom_some {v : Validation} {constraint : ConstraintDefinition} {kind : OwnerKind}
    {id : Int} : ∀ {properties : List Text} {start key : Bytes},
      v.uniquenessFrom constraint kind id properties start = .ok (some key) ↔ ∃ parts,
        List.Forall₂ (fun property part =>
          v.uniquenessPart constraint kind id property = .ok (some part)) properties parts ∧
            key = start ++ parts.flatMap keyPart
  | [], start, key => by
    unfold Validation.uniquenessFrom
    constructor
    · intro h
      cases h
      exact ⟨[], .nil, (List.append_nil start).symm⟩
    · rintro ⟨parts, hparts, hkey⟩
      cases hparts
      rw [hkey, List.flatMap_nil, List.append_nil]
  | property :: rest, start, key => by
    unfold Validation.uniquenessFrom
    constructor
    · intro h
      obtain ⟨part, hpart, h⟩ := bind_eq_ok.mp h
      cases part with
      | none => cases h
      | some part =>
        obtain ⟨parts, hparts, hkey⟩ := uniquenessFrom_some.mp h
        refine ⟨part :: parts, .cons hpart hparts, ?_⟩
        rw [hkey, List.flatMap_cons, List.append_assoc]
    · rintro ⟨parts, hparts, hkey⟩
      cases hparts with
      | cons hpart hparts =>
        refine bind_eq_ok.mpr ⟨_, hpart, uniquenessFrom_some.mpr ⟨_, hparts, ?_⟩⟩
        rw [hkey, List.flatMap_cons, List.append_assoc]

/-- **The key of an owner is the combined key of its parts.** -/
theorem uniqueness_some {v : Validation} {constraint : ConstraintDefinition} {key : Bytes} :
    v.uniqueness constraint kind id = .ok (some key) ↔ ∃ parts,
      List.Forall₂ (fun property part =>
        v.uniquenessPart constraint kind id property = .ok (some part))
          constraint.properties parts ∧ key = tupleKey parts := by
  unfold Validation.uniqueness tupleKey
  rw [uniquenessFrom_some]
  constructor
  · intro ⟨parts, hparts, hkey⟩
    exact ⟨parts, hparts, by rw [hkey, hparts.length_eq]⟩
  · intro ⟨parts, hparts, hkey⟩
    exact ⟨parts, hparts, by rw [hkey, hparts.length_eq]⟩

/-! ## 4. Uniqueness -/

section Uniqueness

variable {zones : Cypher.ZoneDatabase} {wrapLongitude : F64 → F64}

/-- A stored property and the value it was stored from, with a key that memory holds. -/
structure StoredProperty (zones : Cypher.ZoneDatabase) (wrapLongitude : F64 → F64) where
  value : Cypher.Value
  property : PropertyValue
  stored : Stored zones wrapLongitude value property
  addressable : ∀ key, equalityKey property = .ok (some key) → Addressable key

/-- **Two stored values have one key exactly when they are equal.** -/
theorem sameKey_iff (left right : StoredProperty zones wrapLongitude) :
    SameKey left.property right.property ↔ CypherEqual left.value right.value :=
  sameKey_values left.stored right.stored left.addressable right.addressable

/-- **Equality of stored values** is symmetric, transitive, and reflexive on what has a key. -/
theorem cypherEqual_partial (a b c : StoredProperty zones wrapLongitude) :
    (CypherEqual a.value b.value → CypherEqual b.value a.value) ∧
    (CypherEqual a.value b.value → CypherEqual b.value c.value → CypherEqual a.value c.value) ∧
    (CypherEqual a.value a.value ↔ ∃ key, equalityKey a.property = .ok (some key)) := by
  simp only [← sameKey_iff]
  unfold SameKey
  grind

/-- Two owners have a value for each of the properties, and the values are equal. -/
def EqualTuples (held : Int → Text → Option (StoredProperty zones wrapLongitude))
    (properties : List Text) (id id' : Int) : Prop :=
  ∀ property ∈ properties, ∃ left right, held id property = some left ∧
    held id' property = some right ∧ CypherEqual left.value right.value

/-- What the owners of a snapshot hold of the properties of a constraint. -/
structure Holds (v : Validation) (constraint : ConstraintDefinition)
    (held : Int → Text → Option (StoredProperty zones wrapLongitude)) : Prop where
  machine : ∀ id ∈ (v.owners constraint.target).2, IsI64 id
  values : ∀ id ∈ (v.owners constraint.target).2, ∀ property ∈ constraint.properties,
    v.withProperty (v.owners constraint.target).1 id property =
      (held id property).map StoredProperty.property

variable {v : Validation} {constraint : ConstraintDefinition}
  {held : Int → Text → Option (StoredProperty zones wrapLongitude)}

theorem part_some {part : Bytes} (hheld : v.withProperty kind id property =
      (held id property).map StoredProperty.property) :
    v.uniquenessPart constraint kind id property = .ok (some part) ↔ ∃ stored key,
      held id property = some stored ∧ equalityKey stored.property = .ok key ∧
        part = key.getD (nonReflexiveKey id) := by
  unfold Validation.uniquenessPart
  rw [hheld]
  cases held id property with
  | none =>
    refine iff_of_false (fun h => ?_) fun ⟨_, _, h, _⟩ => by cases h
    rw [Option.map_none] at h
    simp only at h
    split at h <;> cases h
  | some stored =>
    constructor
    · intro h
      obtain ⟨key, hkey, h⟩ := bind_eq_ok.mp h
      cases h
      exact ⟨stored, key, rfl, hkey, rfl⟩
    · intro ⟨_, key, hstored, hkey, hpart⟩
      cases hstored
      exact bind_eq_ok.mpr ⟨key, hkey, by rw [hpart]; rfl⟩

theorem part_addressable {part : Bytes} (hheld : v.withProperty kind id property =
      (held id property).map StoredProperty.property)
    (h : v.uniquenessPart constraint kind id property = .ok (some part)) : Addressable part := by
  obtain ⟨stored, key, _, hkey, rfl⟩ := (part_some hheld).mp h
  cases key with
  | some key => exact stored.addressable key hkey
  | none =>
    have hlength : (nonReflexiveKey id).length = 21 := by
      unfold nonReflexiveKey
      rfl
    unfold Addressable
    rw [Option.getD_none, hlength]
    decide

theorem part_common {id' : Int} (hid : IsI64 id) (hid' : IsI64 id') (hne : id ≠ id')
    (hheld : v.withProperty kind id property =
      (held id property).map StoredProperty.property) (hheld' : v.withProperty kind id' property =
      (held id' property).map StoredProperty.property) :
    (∃ part, v.uniquenessPart constraint kind id property = .ok (some part) ∧
        v.uniquenessPart constraint kind id' property = .ok (some part)) ↔
      ∃ left right, held id property = some left ∧ held id' property = some right ∧
        CypherEqual left.value right.value := by
  constructor
  · intro ⟨part, hpart, hpart'⟩
    obtain ⟨left, key, hleft, hkey, rfl⟩ := (part_some hheld).mp hpart
    obtain ⟨right, key', hright, hkey', heq⟩ := (part_some hheld').mp hpart'
    refine ⟨left, right, hleft, hright, (sameKey_iff left right).mp ?_⟩
    cases key with
    | some key =>
      cases key' with
      | some key' =>
        rw [Option.getD_some, Option.getD_some] at heq
        rw [heq] at hkey
        exact ⟨key', hkey, hkey'⟩
      | none =>
        rw [Option.getD_some, Option.getD_none] at heq
        rw [heq] at hkey
        exact absurd hkey nonReflexiveKey_ne
    | none =>
      cases key' with
      | some key' =>
        rw [Option.getD_some, Option.getD_none] at heq
        rw [← heq] at hkey'
        exact absurd hkey' nonReflexiveKey_ne
      | none => exact absurd (i64Bytes_inj hid hid' (List.append_cancel_left heq)) hne
  · intro ⟨left, right, hleft, hright, hequal⟩
    obtain ⟨key, hkey, hkey'⟩ := (sameKey_iff left right).mpr hequal
    exact ⟨key, (part_some hheld).mpr ⟨left, some key, hleft, hkey, rfl⟩,
      (part_some hheld').mpr ⟨right, some key, hright, hkey', rfl⟩⟩

/-- **Two owners have one key exactly when their tuples are equal.** -/
theorem uniqueness_common (h : Holds v constraint held) {id' : Int}
    (hid : id ∈ (v.owners constraint.target).2) (hid' : id' ∈ (v.owners constraint.target).2)
    (hne : id ≠ id') :
    (∃ key, v.uniqueness constraint (v.owners constraint.target).1 id = .ok (some key) ∧
        v.uniqueness constraint (v.owners constraint.target).1 id' = .ok (some key)) ↔
      EqualTuples held constraint.properties id id' := by
  have hcommon := @forall₂_common _ _ _
    (fun property part => v.uniquenessPart constraint (v.owners constraint.target).1 id property =
      .ok (some part))
    (fun property part => v.uniquenessPart constraint (v.owners constraint.target).1 id' property =
      .ok (some part)) constraint.properties constraint.properties
  rw [List.forall₂_same] at hcommon
  have hparts : EqualTuples held constraint.properties id id' ↔
      ∀ property ∈ constraint.properties, ∃ part,
        v.uniquenessPart constraint (v.owners constraint.target).1 id property = .ok (some part) ∧
          v.uniquenessPart constraint (v.owners constraint.target).1 id' property =
            .ok (some part) :=
    forall₂_congr fun property hproperty => (part_common (h.machine id hid) (h.machine id' hid') hne
      (h.values id hid property hproperty) (h.values id' hid' property hproperty)).symm
  rw [hparts, ← hcommon]
  constructor
  · intro ⟨key, hkey, hkey'⟩
    obtain ⟨parts, hparts, rfl⟩ := uniqueness_some.mp hkey
    obtain ⟨parts', hparts', heq⟩ := uniqueness_some.mp hkey'
    have hsmall : ∀ {i : Int} {parts : List Bytes}, i ∈ (v.owners constraint.target).2 →
        List.Forall₂ (fun property part => v.uniquenessPart constraint
          (v.owners constraint.target).1 i property = .ok (some part)) constraint.properties parts →
        ∀ part ∈ parts, Addressable part := by
      intro i parts hi hparts part hpart
      obtain ⟨property, hproperty, hone⟩ := forall₂_exists hparts part hpart
      exact part_addressable (h.values i hi property hproperty) hone
    have hsame := tupleKey_inj (hsmall hid hparts) (hsmall hid' hparts') heq
    rw [← hsame] at hparts'
    exact ⟨parts, hparts, hparts'⟩
  · intro ⟨parts, hparts, hparts'⟩
    exact ⟨_, uniqueness_some.mpr ⟨parts, hparts, rfl⟩, uniqueness_some.mpr ⟨parts, hparts', rfl⟩⟩

theorem uniquenessFrom_ok {kind : OwnerKind} {id : Int}
    (hkind : constraint.kind = .key ∨ constraint.kind = .unique) :
    ∀ {properties : List Text} {start : Bytes},
      (∀ property ∈ properties, v.withProperty kind id property =
        (held id property).map StoredProperty.property) →
      ((∃ key, v.uniquenessFrom constraint kind id properties start = .ok key) ↔
        (constraint.kind = .key → ∀ property ∈ properties, (held id property).isSome = true))
  | [], start, _ => by
    refine iff_of_true ⟨some start, by unfold Validation.uniquenessFrom; rfl⟩ fun _ _ h => ?_
    exact absurd h List.not_mem_nil
  | property :: rest, start, hheld => by
    have hfirst := hheld property (.head _)
    have hrest := fun {start : Bytes} => @uniquenessFrom_ok kind id hkind rest start
      fun p hp => hheld p (List.mem_cons_of_mem property hp)
    unfold Validation.uniquenessFrom Validation.uniquenessPart
    rw [hfirst]
    cases hone : held id property with
    | none =>
      rcases hkind with hkind | hkind
      · simp only [hkind]
        refine iff_of_false (fun ⟨_, h⟩ => by cases h) fun h => ?_
        have hbad := h trivial property (.head _)
        rw [hone] at hbad
        cases hbad
      · simp only [hkind]
        exact iff_of_true ⟨none, rfl⟩ fun h => by cases h
    | some stored =>
      obtain ⟨bytes, hbytes⟩ := stored.stored.canonical
      obtain ⟨key, hkey⟩ := equalityKey_ok hbytes
      rw [Option.map_some]
      simp only [hkey, ok_bind]
      refine (hrest).trans ⟨fun h hk p hp => ?_, fun h hk p hp =>
        h hk p (List.mem_cons_of_mem property hp)⟩
      rcases List.mem_cons.mp hp with rfl | hp
      · rw [hone]
        rfl
      · exact h hk p hp

/-- **A constraint passes** where key owners have all of it and no two have equal tuples. -/
theorem uniqueness_exact (hkind : constraint.kind = .key ∨ constraint.kind = .unique)
    (hs : v.snapshot.Sound) (h : Holds v constraint held) :
    v.constraint constraint = .ok () ↔
      (constraint.kind = .key → ∀ id ∈ (v.owners constraint.target).2,
        ∀ property ∈ constraint.properties, (held id property).isSome = true) ∧
      ∀ id ∈ (v.owners constraint.target).2, ∀ id' ∈ (v.owners constraint.target).2, id ≠ id' →
        ¬ EqualTuples held constraint.properties id id' := by
  have hinstance : ∀ id, v.instanceKey constraint (v.owners constraint.target).1 id =
      v.uniqueness constraint (v.owners constraint.target).1 id := by
    intro id
    unfold Validation.instanceKey
    rcases hkind with hkind | hkind <;> rw [hkind]
  have hcomplete : ∀ id ∈ (v.owners constraint.target).2,
      ((∃ key, v.uniqueness constraint (v.owners constraint.target).1 id = .ok key) ↔
        (constraint.kind = .key → ∀ property ∈ constraint.properties,
          (held id property).isSome = true)) := fun id hid =>
    uniquenessFrom_ok hkind (h.values id hid)
  rw [Validation.constraint_ok, scanDistinct_ok]
  refine and_congr ⟨fun hall hk id hid => ?_, fun hall id hid => ?_⟩
    ⟨fun hpair id hid id' hid' hne hequal => ?_, fun hall => ?_⟩
  · obtain ⟨key, hkey, _⟩ := hall id hid
    rw [hinstance] at hkey
    exact (hcomplete id hid).mp ⟨key, hkey⟩ hk
  · obtain ⟨key, hkey⟩ := (hcomplete id hid).mpr fun hk => hall hk id hid
    exact ⟨key, (hinstance id).trans hkey, fun _ _ => by simp⟩
  · have : Std.Symm (Apart (v.instanceKey constraint (v.owners constraint.target).1)) :=
      ⟨fun _ _ => apart_symm⟩
    obtain ⟨key, hkey, hkey'⟩ := (uniqueness_common h hid hid' hne).mpr hequal
    exact hpair.forall hid hid' hne key ((hinstance id).trans hkey) ((hinstance id').trans hkey')
  · refine (Validation.owners_nodup hs constraint.target).pairwise_of_forall_ne
      fun id hid id' hid' hne key hkey hkey' => hall id hid id' hid' hne ?_
    rw [hinstance] at hkey hkey'
    exact (uniqueness_common h hid hid' hne).mp ⟨key, hkey, hkey'⟩

/-- **Equality keys stand for the equality of values**: two stored values have one key exactly when
    they are equal, both builders give the same key, the combined key tells tuples apart, and so a
    constraint refuses a snapshot exactly when two owners have equal tuples, or an owner lacks a
    part of a key. -/
theorem equalityKeys_exact (hkind : constraint.kind = .key ∨ constraint.kind = .unique)
    (hs : v.snapshot.Sound) (h : Holds v constraint held) :
    (∀ left right : StoredProperty zones wrapLongitude,
      SameKey left.property right.property ↔ CypherEqual left.value right.value) ∧
    (∀ value : PropertyValue, controlledKey value = equalityKey value) ∧
    (∀ parts parts' : List KeyBytes,
      tupleKey (parts.map Subtype.val) = tupleKey (parts'.map Subtype.val) → parts = parts') ∧
    (v.constraint constraint = .ok () ↔
      (constraint.kind = .key → ∀ id ∈ (v.owners constraint.target).2,
        ∀ property ∈ constraint.properties, (held id property).isSome = true) ∧
      ∀ id ∈ (v.owners constraint.target).2, ∀ id' ∈ (v.owners constraint.target).2, id ≠ id' →
        ¬ EqualTuples held constraint.properties id id') := by
  refine ⟨sameKey_iff, controlledKey_eq, fun parts parts' heq => ?_, uniqueness_exact hkind hs h⟩
  have hsmall : ∀ (parts : List KeyBytes), ∀ part ∈ parts.map Subtype.val, Addressable part := by
    intro parts part hpart
    obtain ⟨key, _, rfl⟩ := List.mem_map.mp hpart
    exact key.2
  have hsame := tupleKey_inj (hsmall parts) (hsmall parts') heq
  exact (List.map_injective_iff.mpr Subtype.val_injective) hsame

end Uniqueness

/-! ## 5. An integer and a float -/

/-- A stored integer. -/
def storedTwo : StoredProperty Cypher.berlinSummer Cypher.toMeridian where
  value := .integer 2
  property := .integer 2
  stored := ⟨trivial, rfl, ⟨by decide, by decide⟩, _, rfl⟩
  addressable key h := by
    cases h
    exact (by decide : (numericKey 2).length < 2 ^ 64)

/-- A stored float, a whole number. -/
def storedTwoFloat : StoredProperty Cypher.berlinSummer Cypher.toMeridian where
  value := .float ⟨0x4000000000000000⟩
  property := .float ⟨0x4000000000000000⟩
  stored := ⟨trivial, rfl, trivial, _, rfl⟩
  addressable key h := by
    cases h
    exact (by decide : (numericKey 2).length < 2 ^ 64)

/-- Node 1 has the integer, node 2 the float. -/
def heldTwos (id : Int) (_ : Text) :
    Option (StoredProperty Cypher.berlinSummer Cypher.toMeridian) :=
  if id = 1 then some storedTwo else some storedTwoFloat

/-- Two nodes with a label and a property. -/
def twoNodes : LayerBuilder where
  nodes := ((∅ : Std.ExtTreeMap NodeId DeltaOp).insert 1 .add).insert 2 .add
  labels := ((∅ : Std.ExtTreeMap (NodeId × LabelId) DeltaOp).insert (1, 1) .add).insert (2, 1) .add
  properties := ((∅ : Std.ExtTreeMap PropertySlot PropertyDelta).insert (.node, 1, 1)
    ⟨.add, some (.integer 2)⟩).insert (.node, 2, 1) ⟨.add, some (.float ⟨0x4000000000000000⟩)⟩

theorem twoNodes_formed : twoNodes.Formed := by
  have hsupply : LayerBuilder.supply [.addNode 1, .addNode 2, .addLabel 1 1, .addLabel 2 1,
      .setProperty (.node, 1, 1) (.integer 2),
      .setProperty (.node, 2, 1) (.float ⟨0x4000000000000000⟩)] = .ok twoNodes := rfl
  refine (built_supply (fun c hc => ?_) (by decide) hsupply).formed
  simp only [List.mem_cons, List.not_mem_nil, or_false] at hc
  rcases hc with rfl | rfl | rfl | rfl | rfl | rfl
  · exact (by decide : (1 : Int) < 2 ^ 63)
  · exact (by decide : (2 : Int) < 2 ^ 63)
  · exact (by decide : (1 : Int) < 2 ^ 63 ∧ (1 : Int) < 2 ^ 63)
  · exact (by decide : (2 : Int) < 2 ^ 63 ∧ (1 : Int) < 2 ^ 63)
  · refine ⟨(by decide : (1 : Int) < 2 ^ 63 ∧ (1 : Int) < 2 ^ 63), fun value h => ?_⟩
    cases h
    exact ⟨by decide, by decide⟩
  · refine ⟨(by decide : (2 : Int) < 2 ^ 63 ∧ (1 : Int) < 2 ^ 63), fun value h => ?_⟩
    cases h
    trivial

/-- The property is unique among the nodes with the label. -/
def uniqueP : ConstraintDefinition :=
  ⟨"c".toList, .node "A".toList, ["p".toList], .unique, none⟩

/-- The integer 2 and the float 2.0 are one value, so the constraint refuses them. -/
theorem equalityKeys_exact_twos :
    (Validation.mk labelled ((IndexedSnapshot.mk none {}).applyLayer twoNodes)).constraint
      uniqueP ≠ .ok () := by
  have hsound := IndexedSnapshot.sound_applyLayer valid_blank.sound twoNodes_formed
    (fun _ _ _ h _ => by simp [IndexedSnapshot.base] at h)
  have hholds : Holds (Validation.mk labelled ((IndexedSnapshot.mk none {}).applyLayer twoNodes))
      uniqueP heldTwos := by
    constructor
    · intro id hid
      rcases List.mem_cons.mp hid with rfl | hid
      · exact ⟨by decide, by decide⟩
      · cases List.mem_singleton.mp hid
        exact ⟨by decide, by decide⟩
    · intro id hid property hproperty
      cases List.mem_singleton.mp hproperty
      rcases List.mem_cons.mp hid with rfl | hid
      · rfl
      · cases List.mem_singleton.mp hid
        rfl
  intro hok
  have hexact := ((equalityKeys_exact (.inr rfl) hsound hholds).2.2.2.mp hok).2
  refine hexact 1 (by decide) 2 (by decide) (by decide) fun property _ => ?_
  exact ⟨storedTwo, storedTwoFloat, rfl, rfl, rfl⟩

end Lithograph.Query
