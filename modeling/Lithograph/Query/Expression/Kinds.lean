/-
  File:      Lithograph/Query/Expression/Kinds.lean
  Subject:   The kinds of values that operators take and give.

  The kinds are ranked so that a level of operators gives the highest rank among its operands.
-/
import Lithograph.Library.Folds
import Lithograph.Query.Expression.Operators

namespace Lithograph.Query.Expression

open Library Storage Cypher

/-! ## 1. Kinds -/

inductive Kind where
  | null | boolean | other | integer | float | duration | instant | string | list
  deriving DecidableEq, Repr

/-- The rank of a kind among the kinds of one level. -/
def Kind.rank : Kind → Nat
  | .null => 0
  | .boolean => 1
  | .other => 2
  | .integer => 3
  | .float => 4
  | .duration => 5
  | .instant => 6
  | .string => 7
  | .list => 8

instance : LinearOrder Kind :=
  LinearOrder.lift' Kind.rank fun k l h => by
    cases k <;> cases l <;> first | rfl | exact absurd h (by decide)

/-- The kind of a value. -/
def Value.kind : Value → Kind
  | .null => .null
  | .boolean _ => .boolean
  | .integer _ => .integer
  | .float _ => .float
  | .string _ => .string
  | .list _ => .list
  | .duration _ => .duration
  | .date _ | .localTime _ | .time _ | .localDateTime _ | .zonedDateTime _ => .instant
  | .map _ | .node _ | .relationship _ | .path _ | .point _ | .vector _ | .uuid _ => .other

def Kind.IsNumber (k : Kind) : Prop := k = .integer ∨ k = .float

/-! ## 2. Operators on kinds -/

/-- An operator other than a power takes two kinds and gives the third. -/
inductive Yields : BinaryOp → Kind → Kind → Kind → Prop where
  | integers {op : BinaryOp} (hop : op ≠ .concat) : Yields op .integer .integer .integer
  | integerFloat {op : BinaryOp} (hop : op ≠ .concat) : Yields op .integer .float .float
  | floatInteger {op : BinaryOp} (hop : op ≠ .concat) : Yields op .float .integer .float
  | floats {op : BinaryOp} (hop : op ≠ .concat) : Yields op .float .float .float
  | strings {op : BinaryOp} (hop : op = .add ∨ op = .concat) : Yields op .string .string .string
  | lists {op : BinaryOp} (hop : op = .add ∨ op = .concat) : Yields op .list .list .list
  | append (k : Kind) : Yields .add .list k .list
  | prepend (k : Kind) : Yields .add k .list .list
  | durations {op : BinaryOp} (hop : op = .add ∨ op = .subtract) :
      Yields op .duration .duration .duration
  | scaled {k : Kind} {op : BinaryOp} (hop : op = .multiply ∨ op = .divide) (hk : k.IsNumber) :
      Yields op .duration k .duration
  | scaling {k : Kind} (hk : k.IsNumber) : Yields .multiply k .duration .duration
  | shifted {op : BinaryOp} (hop : op = .add ∨ op = .subtract) :
      Yields op .instant .duration .instant
  | shifting : Yields .add .duration .instant .instant

variable {duration : DurationValue}

section Operators

variable {arithmetic : Arithmetic} {op : BinaryOp} {left right value : Value}

theorem map_eq_ok {ε α β : Type} {x : Except ε α} {f : α → β} {b : β} :
    x.map f = .ok b ↔ ∃ a, x = .ok a ∧ f a = b := by
  cases x with
  | error e => exact ⟨fun h => (nomatch h), fun ⟨_, h, _⟩ => (nomatch h)⟩
  | ok a =>
    refine ⟨fun h => ⟨a, rfl, Except.ok.inj h⟩, fun ⟨a', h, hf⟩ => ?_⟩
    cases h
    exact congrArg Except.ok hf

theorem integerBinary_kind {m n : Int} (h : integerBinary op m n = .ok value) :
    op ≠ .concat ∧ value.kind = .integer := by
  cases op with
  | concat | power => cases h
  | add | subtract | multiply =>
    obtain ⟨k, _, rfl⟩ := map_eq_ok.mp h
    exact ⟨by decide, rfl⟩
  | divide =>
    simp only [integerBinary] at h
    split at h
    · cases h
    · obtain ⟨k, _, rfl⟩ := map_eq_ok.mp h
      exact ⟨by decide, rfl⟩
  | modulo =>
    simp only [integerBinary] at h
    split at h
    · cases h
    · split at h
      · cases h
      · cases h
        exact ⟨by decide, rfl⟩

theorem floatBinary_kind {x y : F64} (h : floatBinary arithmetic op x y = .ok value) :
    op ≠ .concat ∧ value.kind = .float := by
  cases op with
  | concat => cases h
  | add | subtract | multiply | divide | modulo | power =>
    cases h
    exact ⟨by decide, rfl⟩

theorem shiftTemporal_kind {temporal : Value} {subtract : Bool}
    (h : shiftTemporal arithmetic temporal duration subtract = .ok value) :
    temporal.kind = .instant ∧ value.kind = .instant := by
  obtain ⟨signed, _, h⟩ := bind_eq_ok.mp h
  cases temporal with
  | date | localTime | time | localDateTime | zonedDateTime =>
    obtain ⟨shifted, _, rfl⟩ := map_eq_ok.mp h
    exact ⟨rfl, rfl⟩
  | _ => cases h

theorem durationsArithmetic_kind {l r : DurationValue}
    (h : durationsArithmetic op l r = .ok value) :
    Yields op .duration .duration value.kind := by
  cases op with
  | add | subtract =>
    obtain ⟨sum, _, rfl⟩ := map_eq_ok.mp h
    exact .durations (by decide)
  | _ => cases h

theorem durationOnLeft_yields (h : durationOnLeft arithmetic op duration right = .ok value) :
    Yields op .duration right.kind value.kind := by
  unfold durationOnLeft at h
  split at h
  · obtain ⟨scaled, _, rfl⟩ := map_eq_ok.mp h
    exact .scaled (.inl rfl) (.inl rfl)
  · obtain ⟨scaled, _, rfl⟩ := map_eq_ok.mp h
    exact .scaled (.inl rfl) (.inr rfl)
  · obtain ⟨divided, _, rfl⟩ := map_eq_ok.mp h
    exact .scaled (.inr rfl) (.inl rfl)
  · obtain ⟨divided, _, rfl⟩ := map_eq_ok.mp h
    exact .scaled (.inr rfl) (.inr rfl)
  · obtain ⟨hright, hvalue⟩ := shiftTemporal_kind h
    rw [hright, hvalue]
    exact .shifting
  · cases h

theorem durationOnRight_yields (h : durationOnRight arithmetic op left duration = .ok value) :
    Yields op left.kind .duration value.kind := by
  unfold durationOnRight at h
  split at h
  · obtain ⟨scaled, _, rfl⟩ := map_eq_ok.mp h
    exact .scaling (.inl rfl)
  · obtain ⟨scaled, _, rfl⟩ := map_eq_ok.mp h
    exact .scaling (.inr rfl)
  · obtain ⟨hleft, hvalue⟩ := shiftTemporal_kind h
    rw [hleft, hvalue]
    exact .shifted (.inl rfl)
  · obtain ⟨hleft, hvalue⟩ := shiftTemporal_kind h
    rw [hleft, hvalue]
    exact .shifted (.inr rfl)
  · cases h

theorem temporal_yields {result : QueryResult Value}
    (hsome : evaluateTemporalArithmetic arithmetic op left right = some result)
    (h : result = .ok value) : Yields op left.kind right.kind value.kind := by
  unfold evaluateTemporalArithmetic at hsome
  split at hsome
  · cases hsome
    exact durationsArithmetic_kind h
  · cases hsome
    exact durationOnLeft_yields h
  · cases hsome
    exact durationOnRight_yields h
  · cases hsome

theorem plainBinary_yields (hop : op ≠ .power)
    (h : plainBinary arithmetic op left right = .ok value) :
    Yields op left.kind right.kind value.kind := by
  unfold plainBinary at h
  split at h
  · rw [if_pos hop] at h
    obtain ⟨hconcat, hvalue⟩ := integerBinary_kind h
    rw [hvalue]
    exact .integers hconcat
  · obtain ⟨hconcat, hvalue⟩ := floatBinary_kind h
    rw [hvalue]
    exact .integerFloat hconcat
  · obtain ⟨hconcat, hvalue⟩ := floatBinary_kind h
    rw [hvalue]
    exact .floatInteger hconcat
  · obtain ⟨hconcat, hvalue⟩ := floatBinary_kind h
    rw [hvalue]
    exact .floats hconcat
  · split at h
    · cases h
      exact .strings ‹_›
    · cases h
  · split at h
    · cases h
      exact .lists ‹_›
    · cases h
  · split at h
    · cases h
      subst op
      exact .append _
    · cases h
  · split at h
    · cases h
      subst op
      exact .prepend _
    · cases h
  · cases h

theorem numericBinary_yields (hop : op ≠ .power) (hleft : left.kind ≠ .null)
    (hright : right.kind ≠ .null) (h : numericBinary arithmetic op left right = .ok value) :
    Yields op left.kind right.kind value.kind := by
  unfold numericBinary at h
  split at h
  · exact absurd rfl hleft
  · exact absurd rfl hright
  · split at h
    · exact temporal_yields ‹_› h
    · exact plainBinary_yields hop h

/-- **An operator that gives a value takes kinds it is made for.** -/
theorem evaluateBinary_yields (hop : op ≠ .power) (hleft : left.kind ≠ .null)
    (hright : right.kind ≠ .null) (h : evaluateBinary arithmetic op left right = .ok value) :
    Yields op left.kind right.kind value.kind := by
  unfold evaluateBinary at h
  split at h
  · cases h
    exact .strings (.inl rfl)
  · cases h
    exact .strings (.inr rfl)
  · cases h
    exact .lists (.inl rfl)
  · cases h
    exact .lists (.inr rfl)
  · cases h
    exact .append _
  · cases h
    exact .prepend _
  · exact numericBinary_yields hop hleft hright h

theorem plainPower_kind (h : plainBinary arithmetic .power left right = .ok value) :
    left.kind.IsNumber ∧ right.kind.IsNumber ∧ value.kind = .float := by
  unfold plainBinary at h
  split at h
  · rw [if_neg (by decide)] at h
    exact ⟨.inl rfl, .inl rfl, (floatBinary_kind h).2⟩
  · exact ⟨.inl rfl, .inr rfl, (floatBinary_kind h).2⟩
  · exact ⟨.inr rfl, .inl rfl, (floatBinary_kind h).2⟩
  · exact ⟨.inr rfl, .inr rfl, (floatBinary_kind h).2⟩
  all_goals cases h

theorem temporalPower_fails {result : QueryResult Value}
    (hsome : evaluateTemporalArithmetic arithmetic .power left right = some result) :
    result ≠ .ok value := by
  unfold evaluateTemporalArithmetic at hsome
  split at hsome
  · cases hsome
    exact fun h => nomatch h
  · cases hsome
    exact fun h => nomatch h
  · cases hsome
    exact fun h => nomatch h
  · cases hsome

/-- **A power is a float and its operands are numbers.** -/
theorem evaluatePower_kind (hleft : left.kind ≠ .null) (hright : right.kind ≠ .null)
    (h : evaluateBinary arithmetic .power left right = .ok value) :
    left.kind.IsNumber ∧ right.kind.IsNumber ∧ value.kind = .float := by
  change numericBinary arithmetic .power left right = .ok value at h
  unfold numericBinary at h
  split at h
  · exact absurd rfl hleft
  · exact absurd rfl hright
  · split at h
    · exact absurd h (temporalPower_fails ‹_›)
    · exact plainPower_kind h

theorem evaluateUnary_kind {sign : UnaryOp} (h : evaluateUnary arithmetic sign left = .ok value) :
    left.kind.IsNumber ∧ value.kind = left.kind := by
  unfold evaluateUnary at h
  split at h
  · cases h
    exact ⟨.inl rfl, rfl⟩
  · cases h
    exact ⟨.inr rfl, rfl⟩
  · obtain ⟨n, _, rfl⟩ := map_eq_ok.mp h
    exact ⟨.inl rfl, rfl⟩
  · cases h
    exact ⟨.inr rfl, rfl⟩
  · cases h

end Operators

/-! ## 3. Levels of operators -/

/-- An operand of a level after the first: its operator, its type and the kind of its value. -/
abbrev Piece := BinaryOp × CypherType × Kind

/-- The kinds of a level, taken from the left. -/
abbrev KindRun := Folds fun (k : Kind) (piece : Piece) l => Yields piece.1 k piece.2.2 l

section Runs

variable {k l m : Kind} {op : BinaryOp} {pieces : List Piece}

/-- **An operator gives the higher rank of its operands.** -/
theorem Yields.max (h : Yields op k l m) : m = Max.max k l := by
  cases h with
  | integers | integerFloat | floatInteger | floats | strings | lists | durations | shifted
  | shifting => rfl
  | append => cases l <;> rfl
  | prepend => cases k <;> rfl
  | scaled _ hk | scaling hk => rcases hk with rfl | rfl <;> rfl

theorem Yields.present (h : Yields op k l m) : m ≠ .null := by
  cases h <;> decide

theorem KindRun.greatest (hrun : KindRun k pieces m) :
    m ∈ k :: pieces.map (·.2.2) ∧ ∀ x ∈ k :: pieces.map (·.2.2), x ≤ m :=
  Folds.greatest (R := fun _ => True) (fun piece => piece.2.2) (fun _ _ _ _ h => h.max) hrun
    fun _ _ => trivial

theorem KindRun.each {P : Kind → Prop} {R Q : Piece → Prop}
    (hstep : ∀ k piece m, P k → R piece → Yields piece.1 k piece.2.2 m → Q piece ∧ P m)
    (hrun : KindRun k pieces m) (hk : P k) (hpieces : ∀ piece ∈ pieces, R piece) :
    ∀ piece ∈ pieces, Q piece :=
  (Folds.forall hstep hrun hk hpieces).1

theorem KindRun.first (hrun : KindRun k pieces m) (hne : pieces ≠ []) :
    ∃ piece ∈ pieces, ∃ l, Yields piece.1 k piece.2.2 l := by
  cases hrun with
  | nil => exact absurd rfl hne
  | cons hfirst _ => exact ⟨_, .head _, _, hfirst⟩

/-! ### Multiplication and division -/

def BinaryOp.IsMultiplicative (op : BinaryOp) : Prop :=
  op = .multiply ∨ op = .divide ∨ op = .modulo

def Kind.IsCalculated (k : Kind) : Prop := k.IsNumber ∨ k = .duration

theorem Yields.multiplicative (h : Yields op k l m) (hop : op.IsMultiplicative) :
    k.IsCalculated ∧ l.IsCalculated := by
  cases h with
  | integers => exact ⟨.inl (.inl rfl), .inl (.inl rfl)⟩
  | integerFloat => exact ⟨.inl (.inl rfl), .inl (.inr rfl)⟩
  | floatInteger => exact ⟨.inl (.inr rfl), .inl (.inl rfl)⟩
  | floats => exact ⟨.inl (.inr rfl), .inl (.inr rfl)⟩
  | scaled _ hk => exact ⟨.inr rfl, .inl hk⟩
  | scaling hk => exact ⟨.inl hk, .inr rfl⟩
  | strings hop' | lists hop' | durations hop' | shifted hop' =>
    rcases hop' with rfl | rfl <;> exact absurd hop (by simp [BinaryOp.IsMultiplicative])
  | append | prepend | shifting => exact absurd hop (by simp [BinaryOp.IsMultiplicative])

theorem KindRun.calculated (hrun : KindRun k pieces m) (hne : pieces ≠ [])
    (hops : ∀ piece ∈ pieces, piece.1.IsMultiplicative) :
    k.IsCalculated ∧ ∀ piece ∈ pieces, piece.2.2.IsCalculated := by
  obtain ⟨piece, hpiece, _, hfirst⟩ := hrun.first hne
  refine ⟨(hfirst.multiplicative (hops piece hpiece)).1, ?_⟩
  exact hrun.each (P := fun _ => True)
    (fun _ _ _ _ hop h => ⟨(h.multiplicative hop).2, trivial⟩) trivial hops

/-! ### Sums and concatenations -/

def BinaryOp.IsAdditive (op : BinaryOp) : Prop := op = .add ∨ op = .subtract ∨ op = .concat

/-- The kinds that one level of sums can mix, as long as it has no list. -/
inductive Family where
  | number | temporal | text | none
  deriving DecidableEq, Repr

def Kind.family : Kind → Family
  | .integer | .float => .number
  | .duration | .instant => .temporal
  | .string => .text
  | .list | .null | .boolean | .other => .none

/-- An operator of a sum stays in a family, and the operator fits it. -/
structure Keeps (family : Family) (op : BinaryOp) (l : Kind) : Prop where
  same : l.family = family
  known : family ≠ .none
  text : family = .text → op ≠ .subtract
  other : family ≠ .text → op ≠ .concat

theorem Yields.additive (h : Yields op k l m) (hop : op.IsAdditive) (hk : k ≠ .list)
    (hl : l ≠ .list) : Keeps k.family op l ∧ m.family = k.family ∧ m ≠ .list := by
  cases h with
  | integers hop' | integerFloat hop' | floatInteger hop' | floats hop' =>
    exact ⟨⟨rfl, by decide, (nomatch ·), fun _ => hop'⟩, rfl, by decide⟩
  | strings hop' =>
    refine ⟨⟨rfl, by decide, fun _ => ?_, fun h => absurd rfl h⟩, rfl, by decide⟩
    rcases hop' with rfl | rfl <;> decide
  | durations hop' | shifted hop' =>
    refine ⟨⟨rfl, by decide, (nomatch ·), fun _ => ?_⟩, rfl, by decide⟩
    rcases hop' with rfl | rfl <;> decide
  | shifting => exact ⟨⟨rfl, by decide, by decide, fun _ => by decide⟩, rfl, by decide⟩
  | lists | append => exact absurd rfl hk
  | prepend => exact absurd rfl hl
  | scaled hop' =>
    rcases hop' with rfl | rfl <;> exact absurd hop (by simp [BinaryOp.IsAdditive])
  | scaling => exact absurd hop (by simp [BinaryOp.IsAdditive])

/-- **A sum without lists stays in one family.** -/
theorem KindRun.keeps (hrun : KindRun k pieces m)
    (hops : ∀ piece ∈ pieces, piece.1.IsAdditive) (hk : k ≠ .list)
    (hlists : ∀ piece ∈ pieces, piece.2.2 ≠ .list) :
    ∀ piece ∈ pieces, Keeps k.family piece.1 piece.2.2 := by
  refine hrun.each (P := fun l => l.family = k.family ∧ l ≠ .list)
    (R := fun piece => piece.1.IsAdditive ∧ piece.2.2 ≠ .list) ?_ ⟨rfl, hk⟩
    fun piece hpiece => ⟨hops piece hpiece, hlists piece hpiece⟩
  intro l piece l' ⟨hfamily, hl⟩ ⟨hop, hlist⟩ h
  obtain ⟨hkeeps, hfamily', hl'⟩ := h.additive hop hl hlist
  rw [hfamily] at hkeeps hfamily'
  exact ⟨hkeeps, hfamily', hl'⟩

theorem Yields.concat (h : Yields .concat k l m) : l = k ∧ m = k := by
  cases h with
  | strings | lists => exact ⟨rfl, rfl⟩
  | integers hop | integerFloat hop | floatInteger hop | floats hop => exact absurd rfl hop
  | durations hop | scaled hop | shifted hop => exact absurd hop (by decide)

theorem KindRun.concat (hrun : KindRun k pieces m) (hops : ∀ piece ∈ pieces, piece.1 = .concat) :
    ∀ piece ∈ pieces, piece.2.2 = k := by
  refine hrun.each (P := fun l => l = k) ?_ rfl hops
  intro l piece l' hl hop h
  rw [hl, hop] at h
  exact h.concat

end Runs

end Lithograph.Query.Expression
