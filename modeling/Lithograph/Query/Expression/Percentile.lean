/-
  File:      Lithograph/Query/Expression/Percentile.lean
  Subject:   Percentiles (`query/completeness/execute/helpers.rs`).

  The rows are ranked as floats, and rows of one float by where they stand.

  * **`aggregation_ordered`**: what the order of the rows has to do with the aggregates.
-/
import Lithograph.Library.HeapSort
import Lithograph.Query.Expression.Aggregation
import Lithograph.Query.Expression.StaticTyping
import Lithograph.Query.Spill.NumberKey

namespace Lithograph.Query.Expression

open Library Storage Cypher

/-! ## 1. Percentiles -/

/-- `numeric_value`, with the error of `aggregate_percentile`. -/
def numericValue : Value → QueryResult F64
  | .integer value => .ok (integerAsFloat value)
  | .float value => .ok value
  | _ => typeError "percentile aggregate requires numeric values"

/-- The place of a float in `total_cmp`. -/
def totalOrder (x : F64) : Int :=
  if floatNegative x then -(floatMagnitude x) - 1 else floatMagnitude x

/-- `compare_numeric`, where it answers `Less`. -/
def numericLess (left right : F64 × Nat) : Bool :=
  (compare (totalOrder left.1) (totalOrder right.1)).then (compare left.2 right.2) == .lt

def sortNumericValues (values : List (F64 × Nat)) : List (F64 × Nat) :=
  (heapSort numericLess ⟨values.toArray, rfl⟩).toList

/-- `floor() as usize` of a float that is not negative. -/
def floorAsUsize (x : F64) : Nat := min (floatUnits x / unitsInOne).toNat (2 ^ 64 - 1)

/-- `ceil() as usize` of a float that is not negative. -/
def ceilAsUsize (x : F64) : Nat :=
  min ((floatUnits x + (unitsInOne - 1)) / unitsInOne).toNat (2 ^ 64 - 1)

/-- The number of `percentile_number`. -/
def percentileFloat : Value → QueryResult F64
  | .integer value => .ok (integerAsFloat value)
  | .float value => .ok value
  | _ => typeError "percentile must be numeric"

def percentileNumber (percentile : Value) : QueryResult F64 := do
  let percentile ← percentileFloat percentile
  if percentile.isNan = false ∧ 0 ≤ floatOrder percentile ∧
      floatOrder percentile ≤ 0x3ff0000000000000 then .ok percentile
  else typeError "percentile must be between 0.0 and 1.0"

/-- `aggregate_percentile`. It is none where a place is read that is not there. -/
def aggregatePercentile (arithmetic : Arithmetic) (values : List Value) (percentile : Value)
    (continuous : Bool) : QueryResult (Option Value) := do
  let percentile ← percentileNumber percentile
  if values.isEmpty then return some .null
  let numbers ← values.mapM numericValue
  let numbers := sortNumericValues numbers.zipIdx
  if continuous then
    let position := arithmetic.mul percentile (integerAsFloat (numbers.length - 1 : Nat))
    let fraction := arithmetic.sub position (integerAsFloat (floorAsUsize position))
    return do
      let lower ← numbers[floorAsUsize position]?
      let upper ← numbers[ceilAsUsize position]?
      some (.float (arithmetic.add lower.1
        (arithmetic.mul (arithmetic.sub upper.1 lower.1) fraction)))
  else
    let index := ceilAsUsize (arithmetic.mul percentile (integerAsFloat numbers.length))
    return do
      let number ← numbers[index - 1]?
      values[number.2]?

/-! ## 2. Integers as floats -/

theorem roundedMagnitude_between {m : Nat} (hm : m ≠ 0) :
    (m.log2 + 1022) * 2 ^ 52 + 2 ^ 52 ≤ roundedMagnitude m ∧
      roundedMagnitude m ≤ (m.log2 + 1022) * 2 ^ 52 + 2 ^ 53 := by
  have hlow := Nat.log2_self_le hm
  have hhigh : m < 2 ^ (m.log2 + 1) := (Nat.log2_lt hm).mp (Nat.lt_succ_self _)
  unfold roundedMagnitude
  rw [if_neg hm]
  generalize m.log2 = e at hlow hhigh ⊢
  split
  next hsmall =>
    have hscaled := scaled_bounds hsmall hlow hhigh
    exact ⟨Nat.add_le_add_left hscaled.1 _, Nat.add_le_add_left (Nat.le_of_lt hscaled.2) _⟩
  next hlarge =>
    have hsplit : ∀ k, 2 ^ (k + 52) = 2 ^ 52 * 2 ^ k := fun k => by rw [Nat.pow_add, Nat.mul_comm]
    have hkept : 2 ^ 52 ≤ m / 2 ^ (e - 52) := by
      rw [Nat.le_div_iff_mul_le (Nat.two_pow_pos _), ← hsplit, Nat.sub_add_cancel (by omega)]
      exact hlow
    have hbelow : m / 2 ^ (e - 52) < 2 ^ 53 := by
      rw [Nat.div_lt_iff_lt_mul (Nat.two_pow_pos _), Nat.pow_succ 2 52, Nat.mul_right_comm,
        ← hsplit, Nat.sub_add_cancel (by omega), ← Nat.pow_succ]
      exact hhigh
    extract_lets kept lost up
    change 2 ^ 52 ≤ kept at hkept
    change kept < 2 ^ 53 at hbelow
    have hround : (if up then 1 else 0) ≤ 1 := by split <;> decide
    rw [Nat.add_assoc]
    exact ⟨Nat.add_le_add_left (by omega) _, Nat.add_le_add_left (by omega) _⟩

/-- **Larger integers are no smaller as floats.** -/
theorem roundedMagnitude_mono {m n : Nat} (h : m ≤ n) :
    roundedMagnitude m ≤ roundedMagnitude n := by
  by_cases hm : m = 0
  · rw [hm]
    exact Nat.zero_le _
  have hn : n ≠ 0 := by omega
  have hlog : m.log2 ≤ n.log2 := by
    rw [Nat.le_log2 hn]
    exact (Nat.log2_self_le hm).trans h
  rcases Nat.lt_or_eq_of_le hlog with hlt | heq
  · have hmost := (roundedMagnitude_between hm).2
    have hleast := (roundedMagnitude_between hn).1
    omega
  · unfold roundedMagnitude
    rw [if_neg hm, if_neg hn, heq]
    generalize n.log2 = e
    split
    · have hscaled := Nat.mul_le_mul_right (2 ^ (52 - e)) h
      omega
    · have hkept := Nat.div_le_div_right (c := 2 ^ (e - 52)) h
      have hmsplit := Nat.div_add_mod m (2 ^ (e - 52))
      have hnsplit := Nat.div_add_mod n (2 ^ (e - 52))
      extract_lets kept lost up kept' lost' up'
      rcases Nat.lt_or_eq_of_le hkept with hless | hsame
      · change kept < kept' at hless
        split <;> split <;> omega
      · change kept = kept' at hsame
        have hlost : lost ≤ lost' := by
          change 2 ^ (e - 52) * kept + lost = m at hmsplit
          change 2 ^ (e - 52) * kept' + lost' = n at hnsplit
          rw [hsame] at hmsplit
          omega
        have hup : up = true → up' = true := by
          intro hup
          simp only [up, up', Bool.or_eq_true, Bool.and_eq_true, decide_eq_true_eq,
            beq_iff_eq] at hup ⊢
          omega
        split
        next h1 =>
          rw [if_pos (hup h1), hsame]
        next => split <;> omega

variable {x : F64} {n : Int}

theorem totalOrder_inj {y : F64} (h : totalOrder x = totalOrder y) : x = y := by
  have hbits : x.bits.toNat = y.bits.toNat := by
    have hx := x.bits.toNat_lt
    have hy := y.bits.toNat_lt
    unfold totalOrder floatNegative floatMagnitude at h
    simp only [decide_eq_true_eq] at h
    split at h <;> split at h <;> omega
  exact congrArg F64.mk (UInt64.toNat_inj.mp hbits)

theorem totalOrder_mono {m : Int} (hm : InI64 m) (hn : InI64 n) (h : m ≤ n) :
    totalOrder (integerAsFloat m) ≤ totalOrder (integerAsFloat n) := by
  have hsmall : ∀ {k : Int}, InI64 k → roundedMagnitude k.natAbs < 2 ^ 63 := by
    intro k hk
    unfold InI64 at hk
    exact (roundedMagnitude_mono (show k.natAbs ≤ 2 ^ 63 by omega)).trans_lt (by decide)
  obtain ⟨hmmagnitude, hmnegative⟩ := integerAsFloat_parts (hsmall hm)
  obtain ⟨hnmagnitude, hnnegative⟩ := integerAsFloat_parts (hsmall hn)
  unfold totalOrder
  simp only [hmmagnitude, hmnegative, hnmagnitude, hnnegative, decide_eq_true_eq]
  split <;> split
  · have hmono := roundedMagnitude_mono (show n.natAbs ≤ m.natAbs by omega)
    omega
  · omega
  · omega
  · have hmono := roundedMagnitude_mono (show m.natAbs ≤ n.natAbs by omega)
    omega

/-! ## 3. Ranks -/

theorem numericLess_iff {a b : F64 × Nat} : numericLess a b = true ↔
    totalOrder a.1 < totalOrder b.1 ∨ totalOrder a.1 = totalOrder b.1 ∧ a.2 < b.2 := by
  unfold numericLess
  rw [beq_iff_eq, Ordering.then_eq_lt, compare_lt_iff_lt, compare_eq_iff_eq, compare_lt_iff_lt]

theorem numericLess_weak : StrictWeak numericLess := by
  refine ⟨fun a b hab => ?_, fun a b c hba hcb => ?_⟩
  · rw [numericLess_iff] at hab
    rw [← Bool.not_eq_true, numericLess_iff]
    omega
  · rw [← Bool.not_eq_true, numericLess_iff] at hba hcb ⊢
    omega

theorem sortNumericValues_perm (values : List (F64 × Nat)) :
    (sortNumericValues values).Perm values := by
  unfold sortNumericValues
  exact (heapSort_perm _).trans (by simp)

theorem sortNumericValues_ordered (values : List (F64 × Nat)) :
    (sortNumericValues values).Pairwise fun a b => numericLess b a = false :=
  heapSort_ordered numericLess_weak _

theorem sortNumericValues_eq {values : List (F64 × Nat)}
    (h : values.Pairwise fun a b => numericLess b a = false) :
    sortNumericValues values = values := by
  refine List.Perm.eq_of_pairwise (fun a b _ _ hab hba => ?_) (sortNumericValues_ordered values) h
    (sortNumericValues_perm values)
  rw [← Bool.not_eq_true, numericLess_iff] at hab hba
  exact Prod.ext (totalOrder_inj (by omega)) (by omega)

variable {rows ascending : List Int} {k : Nat} {r : Int}

/-- **A rank holds a row that is the same float as its integer.** -/
theorem ranked_row (hperm : rows.Perm ascending) (hsorted : ascending.Pairwise (· ≤ ·))
    (hin : ∀ n ∈ ascending, InI64 n) (hk : ascending[k]? = some r) : ∃ place n,
      (sortNumericValues (rows.map integerAsFloat).zipIdx)[k]? = some (integerAsFloat r, place) ∧
        rows[place]? = some n ∧ integerAsFloat n = integerAsFloat r := by
  have hranks : (sortNumericValues (rows.map integerAsFloat).zipIdx).map (totalOrder ·.1) =
      ascending.map fun n => totalOrder (integerAsFloat n) := by
    refine @List.Perm.eq_of_pairwise _ (· ≤ ·) _ _ (fun a b _ _ => Int.le_antisymm) ?_ ?_ ?_
    · refine List.pairwise_map.mpr ((sortNumericValues_ordered _).imp fun h => ?_)
      rw [← Bool.not_eq_true, numericLess_iff] at h
      omega
    · exact List.pairwise_map.mpr (hsorted.imp_of_mem fun hm hn h =>
        totalOrder_mono (hin _ hm) (hin _ hn) h)
    · have hfirst := (sortNumericValues_perm (rows.map integerAsFloat).zipIdx).map Prod.fst
      rw [List.zipIdx_map_fst] at hfirst
      have hall := (hfirst.trans (hperm.map integerAsFloat)).map totalOrder
      rw [List.map_map, List.map_map] at hall
      exact hall
  have hrank := congrArg (·[k]?) hranks
  rw [List.getElem?_map, List.getElem?_map, hk] at hrank
  obtain ⟨⟨x, place⟩, hfound, heq⟩ := Option.map_eq_some_iff.mp hrank
  have hx := totalOrder_inj heq
  have hmem := (sortNumericValues_perm _).mem_iff.mp (List.mem_of_getElem? hfound)
  rw [List.mk_mem_zipIdx_iff_getElem?, List.getElem?_map] at hmem
  obtain ⟨n, hn, hnx⟩ := Option.map_eq_some_iff.mp hmem
  exact ⟨place, n, hx ▸ hfound, hn, hnx.trans hx⟩

/-- **Any row of the float of a rank has the rank in some order.** -/
theorem ranked_swapped (hsorted : ascending.Pairwise (· ≤ ·)) (hin : ∀ n ∈ ascending, InI64 n)
    (hk : ascending[k]? = some r) (hn : n ∈ ascending) (heq : integerAsFloat n = integerAsFloat r) :
    ∃ rows : List Int, rows.Perm ascending ∧
      ∃ place, (sortNumericValues (rows.map integerAsFloat).zipIdx)[k]? =
        some (integerAsFloat r, place) ∧ rows[place]? = some n := by
  obtain ⟨j, hj, rfl⟩ := List.mem_iff_getElem.mp hn
  obtain ⟨hlt, rfl⟩ := List.getElem?_eq_some_iff.mp hk
  have hsame : ∀ i (hi : i < ascending.length), (ascending.map integerAsFloat).set i
      (integerAsFloat ascending[i]) = ascending.map integerAsFloat := fun i hi => by
    rw [← List.map_set, List.set_getElem_self]
  have hfloats : ((ascending.set k ascending[j]).set j ascending[k]).map integerAsFloat =
      ascending.map integerAsFloat := by
    rw [List.map_set, List.map_set, heq, hsame k hlt, ← heq, hsame j hj]
  have hordered : (ascending.map integerAsFloat).zipIdx.Pairwise
      fun a b => numericLess b a = false := by
    rw [List.pairwise_iff_getElem]
    intro a b ha hb hab
    rw [List.length_zipIdx, List.length_map] at ha hb
    have hmono := totalOrder_mono (hin _ (List.getElem_mem ha)) (hin _ (List.getElem_mem hb))
      (List.pairwise_iff_getElem.mp hsorted a b ha hb hab)
    rw [← Bool.not_eq_true, numericLess_iff]
    simp only [List.getElem_zipIdx, List.getElem_map]
    omega
  refine ⟨_, List.set_set_perm hlt hj, k, ?_, ?_⟩
  · rw [hfloats, sortNumericValues_eq hordered]
    simp [List.getElem?_eq_getElem hlt]
  · rw [List.getElem?_set]
    split
    next hjk =>
      subst hjk
      simp [hj]
    next => simp [hlt]

/-- The rank of a percentile among the rows, from one: the product of the two, rounded up. -/
def rankOf (x : F64) (count : Nat) : Nat :=
  max 1 ((floatUnits x * count + (unitsInOne - 1)) / unitsInOne).toNat

variable {percentile : Value}

theorem percentileNumber_units (h : percentileNumber percentile = .ok x) :
    0 ≤ floatUnits x ∧ floatUnits x ≤ unitsInOne := by
  unfold percentileNumber at h
  obtain ⟨y, _, hy⟩ := bind_eq_ok.mp h
  split at hy
  next hin =>
    obtain rfl := Except.ok.inj hy
    obtain ⟨hnan, hlow, hhigh⟩ := hin
    have hone := (@roundedMagnitude_units 1 (by decide)).2
    have hmost : ¬ magnitudeUnits (roundedMagnitude 1) < magnitudeUnits (floatMagnitude y) ↔
        ¬ roundedMagnitude 1 < floatMagnitude y := not_congr magnitudeUnits_lt_iff
    have hvalue : roundedMagnitude 1 = 0x3ff0000000000000 := by decide
    rw [floatUnits_number hnan]
    unfold floatOrder at hlow hhigh
    split at hlow
    next hnegative =>
      have hzero : floatMagnitude y = 0 := by omega
      rw [if_pos hnegative, hzero, magnitudeUnits_zero]
      omega
    next hnegative =>
      rw [if_neg hnegative] at hhigh ⊢
      omega
  · cases hy

theorem rankOf_le (h : floatUnits x ≤ unitsInOne) {count : Nat} (hcount : 0 < count) :
    rankOf x count ≤ count := by
  have hpos : (0 : Int) < unitsInOne := Int.natCast_pos.mpr unitsInOne_pos
  have hmul := Int.mul_le_mul_of_nonneg_right h (Int.natCast_nonneg count)
  have hlt : (floatUnits x * count + (unitsInOne - 1)) / unitsInOne < count + 1 := by
    refine Int.ediv_lt_of_lt_mul hpos ?_
    rw [Int.add_mul, Int.one_mul, Int.mul_comm count]
    omega
  unfold rankOf
  omega

variable {arithmetic : Arithmetic}

/-- The rank the code takes: the product as a float, rounded up. -/
def productRank (arithmetic : Arithmetic) (x : F64) (count : Nat) : Nat :=
  max 1 (ceilAsUsize (arithmetic.mul x (integerAsFloat count)))

theorem aggregatePercentile_discrete (hx : percentileNumber percentile = .ok x) (hne : rows ≠ []) :
    aggregatePercentile arithmetic (rows.map .integer) percentile false = .ok
      (((sortNumericValues (rows.map integerAsFloat).zipIdx)[
        productRank arithmetic x rows.length - 1]?.bind (rows[·.2]?)).map .integer) := by
  have hnumbers : ∀ l : List Int, (l.map Value.integer).mapM numericValue =
      (.ok (l.map integerAsFloat) : QueryResult (List F64)) := by
    intro l
    induction l with
    | nil => rfl
    | cons n l ih =>
      rw [List.map_cons, List.mapM_cons, ih]
      rfl
  have hsorted : (sortNumericValues (rows.map integerAsFloat).zipIdx).length = rows.length := by
    rw [(sortNumericValues_perm _).length_eq, List.length_zipIdx, List.length_map]
  have hindex : ceilAsUsize (arithmetic.mul x (integerAsFloat rows.length)) - 1 =
      productRank arithmetic x rows.length - 1 := by
    unfold productRank
    omega
  have hempty : (rows.map Value.integer).isEmpty = false := by
    cases rows with
    | nil => exact absurd rfl hne
    | cons => rfl
  simp only [aggregatePercentile, hx, hnumbers, hempty, hsorted, bind, Except.bind]
  rw [if_neg Bool.false_ne_true, if_neg Bool.false_ne_true, hindex]
  cases (sortNumericValues (rows.map integerAsFloat).zipIdx)[
      productRank arithmetic x rows.length - 1]? with
  | none => rfl
  | some number => simp [pure, Except.pure]

/-- **`percentileDisc` of integers** is the integer `r` in every order of the rows exactly where `r`
stands at the rank it takes and no other integer is the same float. -/
theorem aggregatePercentile_ordered (hne : ascending ≠ [])
    (hsorted : ascending.Pairwise (· ≤ ·)) (hin : ∀ n ∈ ascending, InI64 n)
    (hx : percentileNumber percentile = .ok x) :
    ((∀ rows : List Int, rows.Perm ascending → ∃ n ∈ ascending,
      aggregatePercentile arithmetic (rows.map .integer) percentile false =
        .ok (some (.integer n))) ↔ productRank arithmetic x ascending.length ≤ ascending.length) ∧
    ((∀ rows : List Int, rows.Perm ascending →
      aggregatePercentile arithmetic (rows.map .integer) percentile false =
        .ok (some (.integer r))) ↔
      ascending[productRank arithmetic x ascending.length - 1]? = some r ∧
        ∀ n ∈ ascending, integerAsFloat n = integerAsFloat r → n = r) := by
  have hrun : ∀ {rows : List Int}, rows.Perm ascending →
      aggregatePercentile arithmetic (rows.map .integer) percentile false = .ok
        (((sortNumericValues (rows.map integerAsFloat).zipIdx)[
          productRank arithmetic x ascending.length - 1]?.bind (rows[·.2]?)).map .integer) := by
    intro rows hrows
    rw [← hrows.length_eq]
    exact aggregatePercentile_discrete hx fun hnil => hne (hnil ▸ hrows).nil_eq.symm
  have hleast : 1 ≤ productRank arithmetic x ascending.length := Nat.le_max_left _ _
  generalize productRank arithmetic x ascending.length = k at hrun hleast ⊢
  -- past the last rank there is no row
  have hnone : ∀ {v : Value}, aggregatePercentile arithmetic (ascending.map .integer) percentile
      false = .ok (some v) → k ≤ ascending.length := by
    intro v h
    by_contra hpast
    rw [hrun (.refl _), List.getElem?_eq_none] at h
    · cases h
    · rw [(sortNumericValues_perm _).length_eq, List.length_zipIdx, List.length_map]
      omega
  refine ⟨⟨fun h => ?_, fun hle rows hrows => ?_⟩, fun h => ?_, fun ⟨hk, h⟩ rows hrows => ?_⟩
  · obtain ⟨n, _, hok⟩ := h ascending (.refl _)
    exact hnone hok
  · obtain ⟨place, n, hplace, hn, _⟩ := ranked_row hrows hsorted hin
      (List.getElem?_eq_getElem (show k - 1 < ascending.length by omega))
    refine ⟨n, hrows.mem_iff.mp (List.mem_of_getElem? hn), ?_⟩
    rw [hrun hrows, hplace, Option.bind_some, hn]
    rfl
  · have hle := hnone (h ascending (.refl _))
    have hfound := List.getElem?_eq_getElem (show k - 1 < ascending.length by omega)
    -- each row of the float of the rank is the result in some order
    have hall : ∀ n ∈ ascending, integerAsFloat n = integerAsFloat ascending[k - 1] → n = r := by
      intro n hn heq
      obtain ⟨rows, hrows, place, hplace, hplaced⟩ := ranked_swapped hsorted hin hfound hn heq
      have hthis := h rows hrows
      rw [hrun hrows, hplace, Option.bind_some, hplaced] at hthis
      simpa using hthis
    have hr := hall _ (List.getElem_mem _) rfl
    exact ⟨hr ▸ hfound, hr ▸ hall⟩
  · obtain ⟨place, n, hplace, hn, hfloat⟩ := ranked_row hrows hsorted hin hk
    rw [hrun hrows, hplace, Option.bind_some, hn,
      h n (hrows.mem_iff.mp (List.mem_of_getElem? hn)) hfloat]
    rfl

end Lithograph.Query.Expression
