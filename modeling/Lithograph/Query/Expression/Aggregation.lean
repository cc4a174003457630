/-
  File:      Lithograph/Query/Expression/Aggregation.lean
  Subject:   Sums, least and greatest values (`query/completeness/execute/helpers.rs`).

  Integers are added row by row in 64 bits, durations in 128 bits. Floats are a parameter. Left out:
  the average of durations and the checkpoints.

  * **`aggregateSum_ordered`**: when the order of the rows does not matter to a sum.
-/
import Lithograph.Query.Expression.Operators
import Lithograph.Query.Expression.SortEquality
import Mathlib.Algebra.BigOperators.Group.List.Basic

namespace Lithograph.Query.Expression

open Std Library Storage Cypher

/-! ## 1. Aggregates -/

/-- The loop of `aggregate_sum`. -/
def aggregateSumFrom (arithmetic : Arithmetic) : List Value → Int → F64 → Bool → QueryResult Value
  | [], integer, floating, hasFloat => .ok (if hasFloat then .float floating else .integer integer)
  | .integer value :: rest, integer, floating, false => do
    let integer ← narrow (integer + value) "INTEGER64 sum overflow"
    aggregateSumFrom arithmetic rest integer floating false
  | .integer value :: rest, integer, floating, true =>
    aggregateSumFrom arithmetic rest integer
      (arithmetic.add floating (arithmetic.ofInteger value)) true
  | .float value :: rest, integer, floating, hasFloat =>
    aggregateSumFrom arithmetic rest integer
      (arithmetic.add (if hasFloat then floating else arithmetic.ofInteger integer) value) true
  | _ :: _, _, _, _ => typeError "sum() requires numeric values"

structure DurationAggregate where
  months : Int := 0
  days : Int := 0
  seconds : Int := 0
  nanoseconds : Int := 0

def durationAggregateOverflow : String := "duration aggregation overflow"

/-- A checked operation on numbers of 128 bits. -/
def wide (n : Int) : QueryResult Int :=
  if -2 ^ 127 ≤ n ∧ n < 2 ^ 127 then .ok n else typeError durationAggregateOverflow

/-- The loop of `collect_duration_components`. -/
def collectDurationComponents : List Value → DurationAggregate → QueryResult DurationAggregate
  | [], total => .ok total
  | .duration value :: rest, total => do
    let months ← wide (total.months + value.months)
    let days ← wide (total.days + value.days)
    let seconds ← wide (total.seconds + value.seconds)
    let nanoseconds ← wide (total.nanoseconds + value.nanoseconds)
    collectDurationComponents rest ⟨months, days, seconds, nanoseconds⟩
  | _ :: _, _ => typeError "duration aggregation cannot mix numeric and Duration values"

def normalizeDurationComponents (total : DurationAggregate) : QueryResult DurationAggregate := do
  let seconds ← wide (total.seconds + total.nanoseconds.tdiv 1000000000)
  return { total with seconds, nanoseconds := total.nanoseconds.tmod 1000000000 }

def durationFromAggregate (total : DurationAggregate) : QueryResult DurationValue := do
  let months ← narrow total.months durationAggregateOverflow
  let days ← narrow total.days durationAggregateOverflow
  let seconds ← narrow total.seconds durationAggregateOverflow
  let nanoseconds ← narrow total.nanoseconds durationAggregateOverflow
  return ⟨months, days, seconds, nanoseconds⟩

/-- `aggregate_duration` without a divisor. -/
def aggregateDuration (values : List Value) : QueryResult DurationValue := do
  let total ← collectDurationComponents values {}
  let total ← normalizeDurationComponents total
  durationFromAggregate total

def aggregateSum (arithmetic : Arithmetic) (values : List Value) : QueryResult Value :=
  match values with
  | .duration _ :: _ => (aggregateDuration values).map .duration
  | _ => aggregateSumFrom arithmetic values 0 ⟨0⟩ false

/-- What `aggregate_extreme` replaces its result for. -/
def past (maximum : Bool) : Ordering := if maximum then .gt else .lt

/-- The loop of `aggregate_extreme`. -/
def aggregateExtremeFrom (maximum : Bool) : List Value → Value → QueryResult Value
  | [], result => .ok result
  | value :: rest, result => do
    let ordering ← cypherOrderCompareControlled value result
    if ordering = past maximum then aggregateExtremeFrom maximum rest value
    else aggregateExtremeFrom maximum rest result

def aggregateExtreme (values : List Value) (maximum : Bool) : QueryResult Value :=
  match values with
  | [] => .ok .null
  | first :: rest => aggregateExtremeFrom maximum rest first

/-! ## 2. Sums of integers -/

/-- The sum of integers, and the error where it has more than 64 bits. -/
def exactSum (integers : List Int) : QueryResult Value :=
  (narrow integers.sum "INTEGER64 sum overflow").map .integer

variable {n : Int}

theorem narrow_ok (h : InI64 n) (message : String) : narrow n message = .ok n := if_pos h

theorem narrow_error (h : ¬ InI64 n) (message : String) :
    narrow n message = typeError message := if_neg h

variable {arithmetic : Arithmetic}

/-- **Integers have a sum where no prefix of the rows leaves 64 bits.** -/
theorem aggregateSumFrom_ok : ∀ (rows : List Int) (integer : Int), InI64 integer →
    (aggregateSumFrom arithmetic (rows.map .integer) integer ⟨0⟩ false =
        .ok (.integer (integer + rows.sum)) ∧ ∀ k, InI64 (integer + (rows.take k).sum)) ∨
    (aggregateSumFrom arithmetic (rows.map .integer) integer ⟨0⟩ false =
        typeError "INTEGER64 sum overflow" ∧ ∃ k, ¬ InI64 (integer + (rows.take k).sum))
  | [], integer, h => by
    refine .inl ⟨?_, fun k => ?_⟩
    · rw [List.sum_nil, Int.add_zero]
      rfl
    · rw [List.take_nil, List.sum_nil, Int.add_zero]
      exact h
  | value :: rest, integer, h => by
    rw [List.map_cons, aggregateSumFrom, List.sum_cons, ← Int.add_assoc]
    by_cases hfits : InI64 (integer + value)
    · rw [narrow_ok hfits]
      rcases aggregateSumFrom_ok rest (integer + value) hfits with ⟨hsum, hprefix⟩ | ⟨hsum, k, hk⟩
      · refine .inl ⟨hsum, fun k => ?_⟩
        cases k with
        | zero => simpa using h
        | succ k =>
          rw [List.take_succ_cons, List.sum_cons, ← Int.add_assoc]
          exact hprefix k
      · refine .inr ⟨hsum, k + 1, ?_⟩
        rw [List.take_succ_cons, List.sum_cons, ← Int.add_assoc]
        exact hk
    · rw [narrow_error hfits]
      exact .inr ⟨rfl, 1, by simpa using hfits⟩

theorem prefix_between : ∀ (rows : List Int) (k : Nat),
    (rows.filter (· < 0)).sum ≤ (rows.take k).sum ∧ (rows.take k).sum ≤ (rows.filter (0 < ·)).sum
  | [], k => by simp
  | value :: rest, k => by
    have h := prefix_between rest (k - 1)
    cases k with
    | zero =>
      simp only [List.filter_cons, List.take_zero, List.sum_nil, decide_eq_true_eq]
      split <;> split <;> grind
    | succ k =>
      simp only [List.filter_cons, List.take_succ_cons, List.sum_cons, decide_eq_true_eq,
        Nat.add_sub_cancel] at h ⊢
      split <;> split <;> grind

theorem aggregateSum_integers (rows : List Int) : aggregateSum arithmetic (rows.map .integer) =
    aggregateSumFrom arithmetic (rows.map .integer) 0 ⟨0⟩ false := by
  cases rows <;> rfl

/-- **Every order of the rows gives the sum exactly where the positive and the negative ones fit by
themselves, or the sum does not.** -/
theorem aggregateSum_ordered (integers : List Int) :
    (∀ rows : List Int, rows.Perm integers →
      aggregateSum arithmetic (rows.map .integer) = exactSum integers) ↔
    (InI64 integers.sum →
      (integers.filter (0 < ·)).sum < 2 ^ 63 ∧ -2 ^ 63 ≤ (integers.filter (· < 0)).sum) := by
  have hzero : InI64 0 := ⟨by decide, by decide⟩
  refine ⟨fun h hfits => ?_, fun h rows hperm => ?_⟩
  · -- the sum fits, and so does every prefix in every order
    have hprefix : ∀ rows : List Int, rows.Perm integers → ∀ k, InI64 (rows.take k).sum := by
      intro rows hperm k
      have hrows := h rows hperm
      rw [aggregateSum_integers, exactSum, narrow_ok hfits] at hrows
      rcases @aggregateSumFrom_ok arithmetic rows 0 hzero with ⟨_, hall⟩ | ⟨herror, _⟩
      · simpa using hall k
      · rw [herror] at hrows
        cases hrows
    have hpositive := hprefix _ (List.filter_append_perm (fun n => decide (0 < n)) integers)
      (integers.filter (0 < ·)).length
    have hnegative := hprefix _ (List.filter_append_perm (fun n => decide (n < 0)) integers)
      (integers.filter (· < 0)).length
    rw [List.take_left' rfl] at hpositive hnegative
    exact ⟨hpositive.2, hnegative.1⟩
  · rw [aggregateSum_integers, exactSum, ← hperm.sum_eq]
    rw [← hperm.sum_eq, ← (hperm.filter _).sum_eq, ← (hperm.filter _).sum_eq] at h
    rcases @aggregateSumFrom_ok arithmetic rows 0 hzero with ⟨hsum, hall⟩ | ⟨herror, k, hk⟩
    · have hfits := hall rows.length
      rw [List.take_length, Int.zero_add] at hfits
      rw [hsum, narrow_ok hfits, Int.zero_add]
      rfl
    · by_cases hfits : InI64 rows.sum
      · have hbetween := prefix_between rows k
        have hbounds := h hfits
        refine absurd ?_ hk
        unfold InI64
        omega
      · rw [herror, narrow_error hfits]
        rfl

/-! ## 3. Sums of durations -/

/-- The durations of a group, added component by component. -/
def durationTotal (durations : List DurationValue) : DurationAggregate where
  months := (durations.map DurationValue.months).sum
  days := (durations.map DurationValue.days).sum
  seconds := (durations.map DurationValue.seconds).sum
  nanoseconds := (durations.map DurationValue.nanoseconds).sum

/-- The total with whole seconds carried, and the error where a component has more than 64 bits. -/
def exactDuration (durations : List DurationValue) : QueryResult Value :=
  let total := durationTotal durations
  (durationFromAggregate { total with
    seconds := total.seconds + total.nanoseconds.tdiv 1000000000
    nanoseconds := total.nanoseconds.tmod 1000000000 }).map .duration

/-- What some number of durations can add up to. -/
def DurationAggregate.Within (total : DurationAggregate) (count : Nat) : Prop :=
  total.months.natAbs ≤ count * 2 ^ 63 ∧ total.days.natAbs ≤ count * 2 ^ 63 ∧
    total.seconds.natAbs ≤ count * 2 ^ 63 ∧ total.nanoseconds.natAbs ≤ count * 2 ^ 63

theorem wide_ok (h : n.natAbs < 2 ^ 127) : wide n = .ok n :=
  if_pos ⟨by omega, by omega⟩

theorem collectDurationComponents_ok : ∀ (rows : List DurationValue) (total : DurationAggregate)
    (count : Nat), (∀ row ∈ rows, DurationFormed row) → total.Within count →
    count + rows.length < 2 ^ 63 →
    collectDurationComponents (rows.map .duration) total =
      .ok ⟨total.months + (durationTotal rows).months, total.days + (durationTotal rows).days,
        total.seconds + (durationTotal rows).seconds,
        total.nanoseconds + (durationTotal rows).nanoseconds⟩
  | [], total, _, _, _, _ => by simp [collectDurationComponents, durationTotal]
  | row :: rest, total, count, hrows, hwithin, hcount => by
    obtain ⟨hmonths, hdays, hseconds, hnanoseconds⟩ := hrows row (.head _)
    rw [List.length_cons] at hcount
    unfold DurationAggregate.Within at hwithin
    unfold InI64 at hmonths hdays hseconds hnanoseconds
    have ih := collectDurationComponents_ok rest ⟨total.months + row.months, total.days + row.days,
      total.seconds + row.seconds, total.nanoseconds + row.nanoseconds⟩ (count + 1)
      (fun r hr => hrows r (.tail _ hr))
      (by unfold DurationAggregate.Within; dsimp only; omega) (by omega)
    rw [List.map_cons, collectDurationComponents, wide_ok (by omega), wide_ok (by omega),
      wide_ok (by omega), wide_ok (by omega)]
    simpa only [durationTotal, List.map_cons, List.sum_cons, Int.add_assoc, bind, Except.bind]
      using ih

theorem durationTotal_within : ∀ rows : List DurationValue, (∀ row ∈ rows, DurationFormed row) →
    (durationTotal rows).Within rows.length
  | [], _ => by simp [durationTotal, DurationAggregate.Within]
  | row :: rest, hrows => by
    obtain ⟨hmonths, hdays, hseconds, hnanoseconds⟩ := hrows row (.head _)
    have ih := durationTotal_within rest fun r hr => hrows r (.tail _ hr)
    unfold InI64 at hmonths hdays hseconds hnanoseconds
    simp only [durationTotal, DurationAggregate.Within, List.map_cons, List.sum_cons,
      List.length_cons] at ih ⊢
    omega

theorem aggregateSum_durations {durations rows : List DurationValue} (hperm : rows.Perm durations)
    (hne : durations ≠ []) (hlength : durations.length < 2 ^ 63)
    (hformed : ∀ duration ∈ durations, DurationFormed duration) :
    aggregateSum arithmetic (rows.map .duration) = exactDuration durations := by
  have hrows : ∀ row ∈ rows, DurationFormed row :=
    fun row hrow => hformed row (hperm.mem_iff.mp hrow)
  have htotal : durationTotal durations = durationTotal rows := by
    unfold durationTotal
    rw [(hperm.map _).sum_eq, (hperm.map _).sum_eq, (hperm.map _).sum_eq, (hperm.map _).sum_eq]
  have hwithin := durationTotal_within rows hrows
  rw [← hperm.length_eq] at hlength
  have hcollected := collectDurationComponents_ok rows {} 0 hrows
    (by simp [DurationAggregate.Within]) (by omega)
  simp only [Int.zero_add] at hcollected
  have hfits : ((durationTotal rows).seconds +
      (durationTotal rows).nanoseconds.tdiv 1000000000).natAbs < 2 ^ 127 := by
    unfold DurationAggregate.Within at hwithin
    have hdiv := Int.natAbs_tdiv_le_natAbs (durationTotal rows).nanoseconds 1000000000
    omega
  have hsum : aggregateSum arithmetic (rows.map .duration) =
      (aggregateDuration (rows.map .duration)).map .duration := by
    cases rows with
    | nil => exact absurd hperm.symm.eq_nil hne
    | cons row rest => rfl
  rw [hsum, aggregateDuration, hcollected, exactDuration, htotal]
  simp only [bind, Except.bind, normalizeDurationComponents, wide_ok hfits]
  rfl

/-! ## 4. Extremes -/

theorem orderOf_preorder : TotalPreorder (fun left right : ValidValue => orderOf left.1 right.1) :=
  preorder_of_spelled (fun value => spell value.1) fun left right => (orderOf_told left.2 right.2).2

mutual

theorem Value.Valid.formed : ∀ {value : Value}, value.Valid → value.Formed
  | .list _, h => (show Value.ValidItems _ from h).formed
  | .map _, h => ⟨h.1, Value.ValidEntries.formed h.2⟩
  | .null, _ | .boolean _, _ | .integer _, _ | .float _, _ | .string _, _ | .date _, _
  | .localTime _, _ | .time _, _ | .localDateTime _, _ | .zonedDateTime _, _ | .duration _, _
  | .point _, _ | .vector _, _ | .uuid _, _ | .node _, _ | .relationship _, _
  | .path _, _ => trivial

theorem Value.ValidItems.formed : ∀ {values : List Value}, Value.ValidItems values →
    Value.FormedItems values
  | [], _ => trivial
  | _ :: _, h => ⟨h.1.formed, h.2.formed⟩

theorem Value.ValidEntries.formed : ∀ {entries : List (Text × Value)}, Value.ValidEntries entries →
    Value.FormedEntries entries
  | [], _ => trivial
  | (_, _) :: _, h => ⟨h.1.formed, h.2.formed⟩

end

theorem orderOf_chain (maximum : Bool) {a b c : Value} (ha : a.Valid) (hb : b.Valid)
    (hc : c.Valid) (hab : orderOf a b ≠ past maximum) (hbc : orderOf b c ≠ past maximum) :
    orderOf a c ≠ past maximum := by
  have hforward := orderOf_preorder.trans ⟨a, ha⟩ ⟨b, hb⟩ ⟨c, hc⟩
  have hbackward := orderOf_preorder.trans ⟨c, hc⟩ ⟨b, hb⟩ ⟨a, ha⟩
  have hba := orderOf_preorder.reverse ⟨a, ha⟩ ⟨b, hb⟩
  have hcb := orderOf_preorder.reverse ⟨b, hb⟩ ⟨c, hc⟩
  have hca := orderOf_preorder.reverse ⟨a, ha⟩ ⟨c, hc⟩
  unfold past at *
  generalize orderOf a b = x, orderOf b c = y, orderOf a c = z at *
  cases maximum <;> cases x <;> cases y <;> cases z <;> simp_all [Ordering.isLE, Ordering.swap]

theorem orderOf_back (maximum : Bool) {a b : Value} (ha : a.Valid) (hb : b.Valid)
    (h : orderOf a b = past maximum) : orderOf b a ≠ past maximum := by
  have hreverse := orderOf_preorder.reverse ⟨a, ha⟩ ⟨b, hb⟩
  rw [hreverse, h]
  cases maximum <;> decide

/-- **The result is a row that no row is past.** -/
theorem aggregateExtremeFrom_extreme (maximum : Bool) : ∀ (rest : List Value) (result : Value),
    (∀ value ∈ result :: rest, value.Valid) → ∃ r ∈ result :: rest,
      aggregateExtremeFrom maximum rest result = .ok r ∧
        ∀ value ∈ result :: rest, orderOf value r ≠ past maximum
  | [], result, hvalid => by
    have hself := orderOf_preorder.refl ⟨result, hvalid result (.head _)⟩
    refine ⟨result, .head _, rfl, fun value hvalue => ?_⟩
    rw [List.mem_singleton.mp hvalue, hself]
    cases maximum <;> decide
  | value :: rest, result, hvalid => by
    have hresult := hvalid result (.head _)
    have hothers := List.forall_mem_cons.mp (List.forall_mem_cons.mp hvalid).2
    have hcompare : cypherOrderCompareControlled value result = .ok (orderOf value result) := by
      rw [cypherOrderCompareControlled_eq value result hresult.formed,
        (orderOf_told hothers.1 hresult).1]
      rfl
    rw [aggregateExtremeFrom, hcompare]
    by_cases hpast : orderOf value result = past maximum
    · obtain ⟨r, hr, hok, hall⟩ := aggregateExtremeFrom_extreme maximum rest value
        (List.forall_mem_cons.mpr hothers)
      refine ⟨r, .tail _ hr, (if_pos hpast).trans hok,
        List.forall_mem_cons.mpr ⟨?_, hall⟩⟩
      exact orderOf_chain maximum hresult hothers.1 (hvalid r (.tail _ hr))
        (orderOf_back maximum hothers.1 hresult hpast) (hall value (.head _))
    · obtain ⟨r, hr, hok, hall⟩ := aggregateExtremeFrom_extreme maximum rest result
        (List.forall_mem_cons.mpr ⟨hresult, hothers.2⟩)
      have hmem : r ∈ result :: value :: rest := by
        rcases List.mem_cons.mp hr with rfl | hr
        · exact .head _
        · exact .tail _ (.tail _ hr)
      obtain ⟨hfirst, hrest⟩ := List.forall_mem_cons.mp hall
      refine ⟨r, hmem, (if_neg hpast).trans hok, List.forall_mem_cons.mpr
        ⟨hfirst, List.forall_mem_cons.mpr ⟨?_, hrest⟩⟩⟩
      exact orderOf_chain maximum hothers.1 hresult (hvalid r hmem) hpast hfirst

end Lithograph.Query.Expression
