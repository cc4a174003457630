/-
  File:      Lithograph/Query/Spill/Equivalence.lean
  Subject:   When two rows are one to grouping, in terms of the equality of `cypher/value.rs`.

  Null is taken for null and NaN for NaN, also inside lists and maps.

  * `rowsEquivalent_iff`: equivalence, taken apart: the time of durations, and how they divide it.
-/
import Lithograph.Cypher.DurationText
import Lithograph.Query.Expression.SortEquality

namespace Lithograph.Query.Expression

open Library Storage Cypher

/-! ## 1. Equivalence -/

/-- The answer is true. -/
def answersTrue : ValueResult (Option Bool) → Bool
  | .ok (some true) => true
  | _ => false

theorem answersTrue_iff {answer : ValueResult (Option Bool)} :
    answersTrue answer = true ↔ answer = .ok (some true) := by
  match answer with
  | .ok (some true) => exact iff_of_true rfl rfl
  | .ok (some false) => exact iff_of_false Bool.false_ne_true fun h => by cases h
  | .ok none => exact iff_of_false Bool.false_ne_true fun h => by cases h
  | .error _ => exact iff_of_false Bool.false_ne_true fun h => by cases h

theorem answersTrue_some (b : Bool) : answersTrue (.ok (some b)) = b := by
  cases b <;> rfl

section Durations

variable (sameDuration : DurationValue → DurationValue → Bool)

mutual

/-- The answer of `cypher_equals`, where null is null, NaN is NaN, and durations are compared as
    told. -/
def equivalentBy : Value → Value → Bool
  | .null, .null => true
  | .float left, .float right =>
    left.isNan && right.isNan || answersTrue (cypherEquals (.float left) (.float right))
  | .list left, .list right => itemsEquivalentBy left right
  | .map left, .map right => entriesEquivalentBy left right
  | .duration left, .duration right => sameDuration left right
  | left, right => answersTrue (cypherEquals left right)

def itemsEquivalentBy : List Value → List Value → Bool
  | [], [] => true
  | left :: lefts, right :: rights => equivalentBy left right && itemsEquivalentBy lefts rights
  | _, _ => false

/-- Maps of the same keys; both are in the order of the keys. -/
def entriesEquivalentBy : List (Text × Value) → List (Text × Value) → Bool
  | [], [] => true
  | (key, left) :: lefts, (key', right) :: rights =>
    key == key' && equivalentBy left right && entriesEquivalentBy lefts rights
  | _, _ => false

end

end Durations

/-- `cypher_equals` of durations. -/
def sameComponents (left right : DurationValue) : Bool :=
  answersTrue (cypherEquals (.duration left) (.duration right))

/-- **Values are equivalent**: they are equal, null taken for null and NaN for NaN. -/
def equivalent (left right : Value) : Bool := equivalentBy sameComponents left right

/-- Rows are equivalent column by column. -/
def rowsEquivalent (left right : List Value) : Bool := itemsEquivalentBy sameComponents left right

/-- Durations of the same months, days and time. -/
def sameSpan (left right : DurationValue) : Bool :=
  left.months == right.months && left.days == right.days &&
    left.totalNanoseconds == right.totalNanoseconds

/-- Rows that are equivalent but for how durations divide their time. -/
def rowsAlike (left right : List Value) : Bool := itemsEquivalentBy sameSpan left right

mutual

/-- Two durations at the same place have different seconds. -/
def dividesApart : Value → Value → Bool
  | .duration left, .duration right => left.seconds != right.seconds
  | .list left, .list right => rowsDivideApart left right
  | .map left, .map right => entriesDivideApart left right
  | _, _ => false

def rowsDivideApart : List Value → List Value → Bool
  | left :: lefts, right :: rights => dividesApart left right || rowsDivideApart lefts rights
  | _, _ => false

def entriesDivideApart : List (Text × Value) → List (Text × Value) → Bool
  | (_, left) :: lefts, (_, right) :: rights =>
    dividesApart left right || entriesDivideApart lefts rights
  | _, _ => false

end

section Values

variable (zones : ZoneDatabase)

mutual

/-- A value as its constructors make it: integers have 64 bits, a temporal value was parsed, a map
    has each key once. -/
def Value.Made : Value → Prop
  | .integer n => InI64 n
  | .list values => Value.MadeItems values
  | .map entries => (entries.map Prod.fst).Nodup ∧ Value.MadeEntries entries
  | .date value => ∃ text, DateValue.parse text = .ok value
  | .localTime value => ∃ text, LocalTimeValue.parse text = .ok value
  | .time value => ∃ text, TimeValue.parse text = .ok value
  | .localDateTime value => ∃ text, LocalDateTimeValue.parse text = .ok value
  | .zonedDateTime value => ∃ text, ZonedDateTimeValue.parse zones text value.zone = .ok value
  | .duration value => DurationFormed value
  | .point value => PointFormed value
  | .vector value => CypherVector.new value.coordinateType value.values = .ok value
  | .uuid value => value.bytes.length = 16
  | _ => True

def Value.MadeItems : List Value → Prop
  | [] => True
  | value :: rest => value.Made ∧ Value.MadeItems rest

def Value.MadeEntries : List (Text × Value) → Prop
  | [] => True
  | (_, value) :: rest => value.Made ∧ Value.MadeEntries rest

end

end Values

mutual

/-- There is no path in it. -/
def Value.pathFree : Value → Bool
  | .path _ => false
  | .list values => rowPathFree values
  | .map entries => entriesPathFree entries
  | _ => true

def rowPathFree : List Value → Bool
  | [] => true
  | value :: rest => value.pathFree && rowPathFree rest

def entriesPathFree : List (Text × Value) → Bool
  | [] => true
  | (_, value) :: rest => value.pathFree && entriesPathFree rest

end

/-! ## 2. Equality -/

mutual

/-- **Equal values are equivalent.** -/
theorem equivalent_of_equal : ∀ left right : Value, right.Formed →
    cypherEquals left right = .ok (some true) → equivalent left right = true
  | .null, _, _, h => by cases h
  | .list left, right, hr, h => by
    cases right with
    | list right =>
      unfold cypherEquals at h
      split at h
      · cases h
      next hlength =>
        rw [bne_iff_ne, not_not] at hlength
        exact items_of_equality left right hr hlength h
    | _ => exact answersTrue_iff.mpr h
  | .map left, right, hr, h => by
    cases right with
    | map right =>
      unfold cypherEquals at h
      split at h
      · cases h
      next hsame =>
        rw [Bool.or_eq_true, not_or, bne_iff_ne, bne_iff_ne, not_not, not_not] at hsame
        exact entries_of_equality left right right hr.2 hsame.2 (finds_self hr.1) h
    | _ => exact answersTrue_iff.mpr h
  | .float left, right, _, h => by
    cases right with
    | float right =>
      unfold equivalent equivalentBy
      rw [answersTrue_iff.mpr h, Bool.or_true]
    | _ => exact answersTrue_iff.mpr h
  | .boolean _, right, _, h | .integer _, right, _, h | .string _, right, _, h
  | .node _, right, _, h | .relationship _, right, _, h | .path _, right, _, h | .date _, right, _, h
  | .localTime _, right, _, h | .time _, right, _, h | .localDateTime _, right, _, h
  | .zonedDateTime _, right, _, h | .duration _, right, _, h | .point _, right, _, h
  | .vector _, right, _, h | .uuid _, right, _, h => by
    cases right <;> exact answersTrue_iff.mpr h

theorem items_of_equality : ∀ left right : List Value, Value.FormedItems right →
    left.length = right.length → listEquals left right false = .ok (some true) →
      rowsEquivalent left right = true
  | [], [], _, _, _ => rfl
  | left :: lefts, right :: rights, hr, hlength, h => by
    obtain ⟨hfirst, hrest⟩ := listEquals_cons h
    have hleft := equivalent_of_equal left right hr.1 hfirst
    have hothers := items_of_equality lefts rights hr.2 (Nat.succ.inj hlength) hrest
    unfold equivalent at hleft
    unfold rowsEquivalent at hothers ⊢
    unfold itemsEquivalentBy
    rw [hleft, hothers]
    rfl

theorem entries_of_equality : ∀ left right all : List (Text × Value), Value.FormedEntries right →
    left.map Prod.fst = right.map Prod.fst → Finds right all →
      mapEquals left all false = .ok (some true) →
        entriesEquivalentBy sameComponents left right = true
  | [], [], _, _, _, _, _ => rfl
  | (key, left) :: lefts, (key', right) :: rights, all, hr, hkeys, hfinds, h => by
    obtain ⟨hkey, hothers⟩ := List.cons.inj hkeys
    have hkey : key = key' := hkey
    subst hkey
    have hfound : all.lookup key = some right := hfinds _ (.head _)
    have hmore : Finds rights all := fun entry hentry =>
      hfinds entry (.tail _ hentry)
    obtain ⟨hfirst, hrest⟩ := mapEquals_cons hfound h
    have hleft := equivalent_of_equal left right hr.1 hfirst
    unfold equivalent at hleft
    unfold entriesEquivalentBy
    rw [hleft, entries_of_equality lefts rights all hr.2 hothers hmore hrest, beq_self_eq_true]
    rfl

end

mutual

/-- Null or NaN is in it. -/
def Value.hasNullOrNan : Value → Bool
  | .null => true
  | .float x => x.isNan
  | .list values => itemsHaveNullOrNan values
  | .map entries => entriesHaveNullOrNan entries
  | _ => false

def itemsHaveNullOrNan : List Value → Bool
  | [] => false
  | value :: rest => value.hasNullOrNan || itemsHaveNullOrNan rest

def entriesHaveNullOrNan : List (Text × Value) → Bool
  | [] => false
  | (_, value) :: rest => value.hasNullOrNan || entriesHaveNullOrNan rest

end

mutual

/-- **Equivalent values are equal** where there is neither null nor NaN. -/
theorem equal_of_equivalent : ∀ left right : Value, right.Formed → left.hasNullOrNan = false →
    equivalent left right = true → cypherEquals left right = .ok (some true)
  | .null, _, _, hl, _ => by cases hl
  | .list left, right, hr, hl, h => by
    cases right with
    | list right =>
      obtain ⟨hlength, hitems⟩ := equality_of_items left right hr hl h
      unfold cypherEquals
      rw [hlength, bne_self_eq_false, if_neg Bool.false_ne_true]
      exact hitems
    | _ => exact answersTrue_iff.mp h
  | .map left, right, hr, hl, h => by
    cases right with
    | map right =>
      obtain ⟨hkeys, hentries⟩ := equality_of_entries left right right hr.2 hl (finds_self hr.1) h
      have hlength : left.length = right.length := by
        have hcount := congrArg List.length hkeys
        rw [List.length_map, List.length_map] at hcount
        exact hcount
      unfold cypherEquals
      rw [hlength, hkeys, bne_self_eq_false, bne_self_eq_false, if_neg (by decide)]
      exact hentries
    | _ => exact answersTrue_iff.mp h
  | .float left, right, _, hl, h => by
    cases right with
    | float right =>
      have hnan : left.isNan = false := hl
      unfold equivalent equivalentBy at h
      rw [hnan, Bool.false_and, Bool.false_or] at h
      exact answersTrue_iff.mp h
    | _ => exact answersTrue_iff.mp h
  | .boolean _, right, _, _, h | .integer _, right, _, _, h | .string _, right, _, _, h
  | .node _, right, _, _, h | .relationship _, right, _, _, h | .path _, right, _, _, h
  | .date _, right, _, _, h | .localTime _, right, _, _, h | .time _, right, _, _, h
  | .localDateTime _, right, _, _, h | .zonedDateTime _, right, _, _, h
  | .duration _, right, _, _, h | .point _, right, _, _, h | .vector _, right, _, _, h
  | .uuid _, right, _, _, h => by
    cases right <;> exact answersTrue_iff.mp h

theorem equality_of_items : ∀ left right : List Value, Value.FormedItems right →
    itemsHaveNullOrNan left = false → rowsEquivalent left right = true →
      left.length = right.length ∧ listEquals left right false = .ok (some true)
  | [], [], _, _, _ => ⟨rfl, rfl⟩
  | [], _ :: _, _, _, h => by cases h
  | _ :: _, [], _, _, h => by cases h
  | left :: lefts, right :: rights, hr, hl, h => by
    unfold itemsHaveNullOrNan at hl
    rw [Bool.or_eq_false_iff] at hl
    unfold rowsEquivalent itemsEquivalentBy at h
    rw [Bool.and_eq_true] at h
    have hfirst := equal_of_equivalent left right hr.1 hl.1 h.1
    obtain ⟨hlength, hrest⟩ := equality_of_items lefts rights hr.2 hl.2 h.2
    refine ⟨congrArg Nat.succ hlength, ?_⟩
    unfold listEquals
    rw [hfirst]
    exact hrest

theorem equality_of_entries : ∀ left right all : List (Text × Value), Value.FormedEntries right →
    entriesHaveNullOrNan left = false → Finds right all →
      entriesEquivalentBy sameComponents left right = true →
        left.map Prod.fst = right.map Prod.fst ∧ mapEquals left all false = .ok (some true)
  | [], [], _, _, _, _, _ => ⟨rfl, rfl⟩
  | [], (_, _) :: _, _, _, _, _, h => by cases h
  | (_, _) :: _, [], _, _, _, _, h => by cases h
  | (key, left) :: lefts, (key', right) :: rights, all, hr, hl, hfinds, h => by
    unfold entriesHaveNullOrNan at hl
    rw [Bool.or_eq_false_iff] at hl
    unfold entriesEquivalentBy at h
    rw [Bool.and_eq_true, Bool.and_eq_true, beq_iff_eq] at h
    obtain ⟨⟨hkey, hvalue⟩, hothers⟩ := h
    subst hkey
    have hfound : all.lookup key = some right := hfinds _ (.head _)
    have hmore : Finds rights all := fun entry hentry =>
      hfinds entry (.tail _ hentry)
    have hfirst := equal_of_equivalent left right hr.1 hl.1 hvalue
    obtain ⟨hkeys, hrest⟩ := equality_of_entries lefts rights all hr.2 hl.2 hmore hothers
    refine ⟨by rw [List.map_cons, List.map_cons, hkeys], ?_⟩
    unfold mapEquals
    rw [hfound]
    simp only
    rw [hfirst]
    exact hrest

end

/-! ## 3. Durations -/

theorem sameComponents_iff (left right : DurationValue) : sameComponents left right = true ↔
    sameSpan left right = true ∧ (left.seconds != right.seconds) = false := by
  unfold sameComponents sameSpan cypherEquals DurationValue.totalNanoseconds
  rw [answersTrue_some, beq_iff_eq, bne_eq_false_iff_eq]
  simp only [Bool.and_eq_true, beq_iff_eq]
  constructor
  · intro h
    rw [h]
    exact ⟨⟨⟨rfl, rfl⟩, rfl⟩, rfl⟩
  · intro h
    obtain ⟨⟨⟨hmonths, hdays⟩, htime⟩, hseconds⟩ := h
    cases left
    simp_all

mutual

theorem equivalent_iff : ∀ left right : Value, equivalentBy sameComponents left right = true ↔
    equivalentBy sameSpan left right = true ∧ dividesApart left right = false
  | .list left, right => by
    cases right with
    | list right => exact rowsEquivalent_iff left right
    | _ => exact (and_iff_left rfl).symm
  | .map left, right => by
    cases right with
    | map right => exact entriesEquivalent_iff left right
    | _ => exact (and_iff_left rfl).symm
  | .duration left, right => by
    cases right with
    | duration right => exact sameComponents_iff left right
    | _ => exact (and_iff_left rfl).symm
  | .null, right | .boolean _, right | .integer _, right | .float _, right | .string _, right
  | .node _, right | .relationship _, right | .path _, right | .date _, right | .localTime _, right
  | .time _, right | .localDateTime _, right | .zonedDateTime _, right | .point _, right
  | .vector _, right | .uuid _, right => by
    cases right <;> exact (and_iff_left rfl).symm

theorem rowsEquivalent_iff : ∀ left right : List Value, rowsEquivalent left right = true ↔
    rowsAlike left right = true ∧ rowsDivideApart left right = false
  | [], [] => iff_of_true rfl ⟨rfl, rfl⟩
  | [], _ :: _ => iff_of_false Bool.false_ne_true fun h => Bool.false_ne_true h.1
  | _ :: _, [] => iff_of_false Bool.false_ne_true fun h => Bool.false_ne_true h.1
  | left :: lefts, right :: rights => by
    have hrest := rowsEquivalent_iff lefts rights
    unfold rowsEquivalent rowsAlike at hrest ⊢
    unfold itemsEquivalentBy rowsDivideApart
    rw [Bool.and_eq_true, Bool.and_eq_true, Bool.or_eq_false_iff, equivalent_iff left right, hrest]
    exact and_and_and_comm

theorem entriesEquivalent_iff : ∀ left right : List (Text × Value),
    entriesEquivalentBy sameComponents left right = true ↔
      entriesEquivalentBy sameSpan left right = true ∧ entriesDivideApart left right = false
  | [], [] => iff_of_true rfl ⟨rfl, rfl⟩
  | [], (_, _) :: _ => iff_of_false Bool.false_ne_true fun h => Bool.false_ne_true h.1
  | (_, _) :: _, [] => iff_of_false Bool.false_ne_true fun h => Bool.false_ne_true h.1
  | (key, left) :: lefts, (key', right) :: rights => by
    unfold entriesEquivalentBy entriesDivideApart
    rw [Bool.and_eq_true, Bool.and_eq_true, Bool.and_eq_true, Bool.and_eq_true,
      Bool.or_eq_false_iff, equivalent_iff left right, entriesEquivalent_iff lefts rights]
    constructor
    · intro h
      obtain ⟨⟨hkey, halike, hfirst⟩, halikes, hrest⟩ := h
      exact ⟨⟨⟨hkey, halike⟩, halikes⟩, hfirst, hrest⟩
    · intro h
      obtain ⟨⟨⟨hkey, halike⟩, halikes⟩, hfirst, hrest⟩ := h
      exact ⟨⟨hkey, halike, hfirst⟩, halikes, hrest⟩

end

end Lithograph.Query.Expression
