/-
  File:      Lithograph/Query/Expression/Levels.lean
  Subject:   One level of operators: the type analysis gives it, and the kind of its value.

  * **`multiplicative_described`**, **`additive_described`**: which products and sums have the right
    type.
-/
import Lithograph.Query.Expression.Kinds

namespace Lithograph.Query.Expression

open Library Storage Cypher

/-! ## 1. Types and kinds -/

/-- A type is right for a kind: it says nothing, or it says which kind it is. -/
inductive Describes : CypherType → Kind → Prop where
  | any (k : Kind) : Describes .any k
  | null : Describes .null .null
  | boolean : Describes .boolean .boolean
  | integer : Describes .integer .integer
  | float : Describes .float .float
  | string : Describes .string .string
  | list (element : CypherType) : Describes (.list element) .list

@[simp] theorem describes_float {k : Kind} : Describes .float k ↔ k = .float :=
  ⟨fun h => by cases h; rfl, fun h => h ▸ .float⟩

@[simp] theorem describes_integer {k : Kind} : Describes .integer k ↔ k = .integer :=
  ⟨fun h => by cases h; rfl, fun h => h ▸ .integer⟩

/-- The type of an operand and the kind of its value. -/
abbrev Operand := CypherType × Kind

/-- The operands of a level. -/
abbrev operandsOf (first : Operand) (pieces : List Piece) : List Operand :=
  first :: pieces.map (·.2)

/-- A level of at least one operator, whose operands are present and have right types. -/
structure Evaluated (first : Operand) (pieces : List Piece) : Prop where
  operated : pieces ≠ []
  described : ∀ o ∈ operandsOf first pieces, Describes o.1 o.2
  present : ∀ o ∈ operandsOf first pieces, o.2 ≠ .null

/-- The type of the level is right for the kind. -/
def Typed (first : Operand) (pieces : List Piece) (k : Kind) : Prop :=
  ∃ t, inferLevel ((operandsOf first pieces).map (·.1)) (pieces.map (·.1)) = .ok t ∧ Describes t k

variable {t : CypherType}

@[simp] theorem isNumericOrUnknown_iff :
    isNumericOrUnknown t = true ↔ t = .integer ∨ t = .float ∨ t = .any ∨ t = .null := by
  simp [isNumericOrUnknown, or_assoc]

@[simp] theorem isStringOrUnknown_iff :
    isStringOrUnknown t = true ↔ t = .string ∨ t = .any ∨ t = .null := by
  simp [isStringOrUnknown, or_assoc]

@[simp] theorem isListOrUnknown_iff :
    isListOrUnknown t = true ↔ isList t = true ∨ t = .any ∨ t = .null := by
  simp [isListOrUnknown, or_assoc]

section Rules

variable {types : List CypherType} {ops : List BinaryOp}

/-- No instant and no duration among the types. -/
def Timeless (types : List CypherType) : Prop :=
  ∀ t ∈ types, t ≠ .duration ∧ isTemporalInstant t = false

theorem inferTemporalArithmetic_none (h : Timeless types) :
    inferTemporalArithmetic types ops = none := by
  have hany : (types.any fun t => t = .duration || isTemporalInstant t) = false := by
    rw [List.any_eq_false]
    intro t ht
    simp [h t ht]
  simp [inferTemporalArithmetic, hany]

theorem inferLevel_eq (htypes : types ≠ []) (hops : ops ≠ [])
    {result : Inferred CypherType} (hresult : inferArithmeticOperator types ops = some result) :
    inferLevel types ops = result := by
  rw [inferLevel, if_neg (by simpa using hops), inferFromChildren, if_neg (by simpa using htypes),
    hresult]

theorem inferLevel_divide (h : Timeless types) (htypes : types ≠ []) (hdivide : .divide ∈ ops) :
    inferLevel types ops = (requireNumeric types).map fun _ => .float := by
  refine inferLevel_eq htypes (List.ne_nil_of_mem hdivide) ?_
  simp [inferArithmeticOperator, inferTemporalArithmetic_none h, hdivide]

theorem inferLevel_numeric (h : Timeless types) (htypes : types ≠ []) (hdivide : .divide ∉ ops)
    {op : BinaryOp} (hmem : op ∈ ops)
    (hop : op = .subtract ∨ op = .multiply ∨ op = .modulo ∨ op = .power) :
    inferLevel types ops = (requireNumeric types).map fun _ => numericResultType types := by
  refine inferLevel_eq htypes (List.ne_nil_of_mem hmem) ?_
  have hany : (ops.any fun operator => operator = .subtract || operator = .multiply ||
      operator = .modulo || operator = .power) = true := by
    rw [List.any_eq_true]
    exact ⟨op, hmem, by simpa [or_assoc] using hop⟩
  simp [inferArithmeticOperator, inferTemporalArithmetic_none h, hdivide, hany]

theorem inferLevel_plus (h : Timeless types) (htypes : types ≠ [])
    (hops : ∀ op ∈ ops, op = .add ∨ op = .concat) (hadd : .add ∈ ops) :
    inferLevel types ops = plusResultType types := by
  refine inferLevel_eq htypes (List.ne_nil_of_mem hadd) ?_
  have hdivide : .divide ∉ ops := fun hmem => absurd (hops _ hmem) (by decide)
  have hany : (ops.any fun operator => operator = .subtract || operator = .multiply ||
      operator = .modulo || operator = .power) = false := by
    rw [List.any_eq_false]
    intro op hop
    rcases hops op hop with rfl | rfl <;> decide
  simp [inferArithmeticOperator, inferTemporalArithmetic_none h, hdivide, hany, hadd]

theorem inferLevel_concat (h : Timeless types) (htypes : types ≠ []) (hne : ops ≠ [])
    (hops : ∀ op ∈ ops, op = .concat) : inferLevel types ops = concatResultType types := by
  refine inferLevel_eq htypes hne ?_
  have hdivide : .divide ∉ ops := fun hmem => absurd (hops _ hmem) (by decide)
  have hadd : .add ∉ ops := fun hmem => absurd (hops _ hmem) (by decide)
  have hconcat : .concat ∈ ops := by
    obtain ⟨op, hop⟩ := List.exists_mem_of_ne_nil ops hne
    exact hops op hop ▸ hop
  have hany : (ops.any fun operator => operator = .subtract || operator = .multiply ||
      operator = .modulo || operator = .power) = false := by
    rw [List.any_eq_false]
    intro op hop
    rw [hops op hop]
    decide
  simp [inferArithmeticOperator, inferTemporalArithmetic_none h, hdivide, hany, hadd, hconcat]

end Rules

/-! ## 2. Numbers -/

section Numbers

variable {level : List Operand} {k : Kind}

theorem Describes.timeless (h : Describes t k) : t ≠ .duration ∧ isTemporalInstant t = false := by
  cases h <;> exact ⟨by simp, rfl⟩

theorem timeless_of_described (h : ∀ o ∈ level, Describes o.1 o.2) :
    Timeless (level.map (·.1)) := by
  intro t ht
  obtain ⟨o, ho, rfl⟩ := List.mem_map.mp ht
  exact (h o ho).timeless

theorem Describes.numeric (h : Describes t k) (hk : k.IsCalculated) :
    t = .integer ∨ t = .float ∨ t = .any := by
  rcases hk with (rfl | rfl) | rfl <;> cases h <;> simp

theorem requireNumeric_ok {types : List CypherType} (h : ∀ t ∈ types, isNumericOrUnknown t = true) :
    requireNumeric types = .ok () := by
  rw [requireNumeric, if_pos (List.all_eq_true.mpr h)]

/-- **The type is right where `Float` does not hide a duration.** -/
theorem numericResult_described (hdescribed : ∀ o ∈ level, Describes o.1 o.2)
    (hcalculated : ∀ o ∈ level, o.2.IsCalculated) (hmem : k ∈ level.map (·.2))
    (hle : ∀ x ∈ level.map (·.2), x ≤ k) :
    Describes (numericResultType (level.map (·.1))) k ↔
      ((∃ o ∈ level, o.1 = .float) → ∀ o ∈ level, o.2 ≠ .duration) := by
  obtain ⟨top, htop, rfl⟩ := List.mem_map.mp hmem
  have hle' : ∀ o ∈ level, o.2 ≤ top.2 := fun o ho => hle _ (List.mem_map_of_mem ho)
  rw [numericResultType]
  split
  · -- A float is among the operands, so that the value is a float or a duration.
    rename_i hfloat
    obtain ⟨o, ho, hof⟩ := List.mem_map.mp hfloat
    have hok : o.2 = .float := describes_float.mp (hof ▸ hdescribed o ho)
    have hge := hle' o ho
    rw [hok] at hge
    constructor
    · intro hd _ p hp hduration
      have hp' := hle' p hp
      rw [hduration, describes_float.mp hd] at hp'
      exact absurd hp' (by decide)
    · intro hnone
      have htop' := hnone ⟨o, ho, hof⟩ top htop
      rcases hcalculated top htop with (hint | hflt) | hdur
      · rw [hint] at hge
        exact absurd hge (by decide)
      · exact describes_float.mpr hflt
      · exact absurd hdur htop'
  · rename_i hfloat
    have hnofloat : ¬ ∃ o ∈ level, o.1 = .float :=
      fun ⟨o, ho, hof⟩ => hfloat (hof ▸ List.mem_map_of_mem ho)
    refine iff_of_true ?_ fun h => absurd h hnofloat
    split
    · rename_i hall
      have htop' := List.all_eq_true.mp hall _ (List.mem_map_of_mem htop)
      have hinteger : top.1 = .integer := by
        rcases (hdescribed top htop).numeric (hcalculated top htop) with h | h | h
        · exact h
        · rw [h] at htop'
          exact absurd htop' (by decide)
        · rw [h] at htop'
          exact absurd htop' (by decide)
      exact hinteger ▸ hdescribed top htop
    · exact .any _

end Numbers

/-! ## 3. Products -/

/-- Where the type of a level of products is right: a quotient is a float, or no operand typed
    `Float` hides a duration. -/
def MultiplicativeMatched (ops : List BinaryOp) (level : List Operand) : Prop :=
  if .divide ∈ ops then (∃ o ∈ level, o.2 = .float) ∧ ∀ o ∈ level, o.2 ≠ .duration
  else (∃ o ∈ level, o.1 = .float) → ∀ o ∈ level, o.2 ≠ .duration

/-- Where the type of a level of powers is right. -/
def PowerMatched (level : List Operand) : Prop := ∃ o ∈ level, o.1 ≠ .integer

section Levels

variable {first : Operand} {pieces : List Piece} {k : Kind}

theorem KindRun.highest (hrun : KindRun first.2 pieces k) :
    k ∈ (operandsOf first pieces).map (·.2) ∧ ∀ x ∈ (operandsOf first pieces).map (·.2), x ≤ k := by
  have h := hrun.greatest
  simpa only [operandsOf, List.map_cons, List.map_map, Function.comp_def] using h

theorem forall_operands {P : Operand → Prop} :
    (∀ o ∈ operandsOf first pieces, P o) ↔ P first ∧ ∀ piece ∈ pieces, P piece.2 := by
  rw [operandsOf, List.forall_mem_cons, List.forall_mem_map]

theorem highest_float {level : List Operand} (hcalculated : ∀ o ∈ level, o.2.IsCalculated)
    (hmem : k ∈ level.map (·.2)) (hle : ∀ x ∈ level.map (·.2), x ≤ k) :
    k = .float ↔ (∃ o ∈ level, o.2 = .float) ∧ ∀ o ∈ level, o.2 ≠ .duration := by
  obtain ⟨top, htop, rfl⟩ := List.mem_map.mp hmem
  have hle' : ∀ o ∈ level, o.2 ≤ top.2 := fun o ho => hle _ (List.mem_map_of_mem ho)
  constructor
  · intro hfloat
    refine ⟨⟨top, htop, hfloat⟩, fun o ho hduration => ?_⟩
    have hge := hle' o ho
    rw [hduration, hfloat] at hge
    exact absurd hge (by decide)
  · intro ⟨⟨o, ho, hfloat⟩, hnone⟩
    have hge := hle' o ho
    rw [hfloat] at hge
    rcases hcalculated top htop with (hinteger | hfloat') | hduration
    · rw [hinteger] at hge
      exact absurd hge (by decide)
    · exact hfloat'
    · exact absurd hduration (hnone top htop)

theorem map_unit_ok {x : Inferred Unit} (hx : x = .ok ()) {P : CypherType → Prop} :
    (∃ t', (x.map fun _ => t) = .ok t' ∧ P t') ↔ P t := by
  rw [hx]
  refine ⟨fun ⟨t', ht, hp⟩ => ?_, fun hp => ⟨t, rfl, hp⟩⟩
  cases ht
  exact hp

/-- **The type is right where no quotient and no duration is in the way.** -/
theorem multiplicative_described (h : Evaluated first pieces)
    (hrun : KindRun first.2 pieces k) (hops : ∀ piece ∈ pieces, piece.1.IsMultiplicative) :
    Typed first pieces k ↔ MultiplicativeMatched (pieces.map (·.1)) (operandsOf first pieces) := by
  have hcalculated : ∀ o ∈ operandsOf first pieces, o.2.IsCalculated :=
    forall_operands.mpr (hrun.calculated h.operated hops)
  obtain ⟨hmem, hle⟩ := hrun.highest
  have htimeless := timeless_of_described h.described
  have hnumeric : requireNumeric ((operandsOf first pieces).map (·.1)) = .ok () := by
    refine requireNumeric_ok fun t ht => ?_
    obtain ⟨o, ho, rfl⟩ := List.mem_map.mp ht
    rcases (h.described o ho).numeric (hcalculated o ho) with heq | heq | heq <;> simp [heq]
  unfold Typed MultiplicativeMatched
  by_cases hdivide : .divide ∈ pieces.map (·.1)
  · rw [inferLevel_divide htimeless (by simp) hdivide, if_pos hdivide, map_unit_ok hnumeric,
      describes_float]
    exact highest_float hcalculated hmem hle
  · obtain ⟨piece, hpiece⟩ := List.exists_mem_of_ne_nil pieces h.operated
    have hop : piece.1 = .multiply ∨ piece.1 = .modulo := by
      rcases hops piece hpiece with heq | heq | heq
      · exact .inl heq
      · exact absurd (heq ▸ List.mem_map_of_mem hpiece) hdivide
      · exact .inr heq
    have hop' : piece.1 = .subtract ∨ piece.1 = .multiply ∨ piece.1 = .modulo ∨
        piece.1 = .power := by
      rcases hop with heq | heq <;> simp [heq]
    rw [inferLevel_numeric htimeless (by simp) hdivide (List.mem_map_of_mem hpiece) hop',
      if_neg hdivide, map_unit_ok hnumeric]
    exact numericResult_described h.described hcalculated hmem hle

/-- **The type is right unless every operand is typed `Integer`.** -/
theorem power_described (h : Evaluated first pieces)
    (hnumbers : ∀ o ∈ operandsOf first pieces, o.2.IsNumber)
    (hops : ∀ piece ∈ pieces, piece.1 = .power) :
    Typed first pieces .float ↔ PowerMatched (operandsOf first pieces) := by
  have htypes : ∀ o ∈ operandsOf first pieces, o.1 = .integer ∨ o.1 = .float ∨ o.1 = .any :=
    fun o ho => (h.described o ho).numeric (.inl (hnumbers o ho))
  have hnumeric : requireNumeric ((operandsOf first pieces).map (·.1)) = .ok () := by
    refine requireNumeric_ok fun t ht => ?_
    obtain ⟨o, ho, rfl⟩ := List.mem_map.mp ht
    rcases htypes o ho with heq | heq | heq <;> simp [heq]
  have hdivide : .divide ∉ pieces.map (·.1) := by
    intro hmem
    obtain ⟨piece, hpiece, heq⟩ := List.mem_map.mp hmem
    exact absurd ((hops piece hpiece).symm.trans heq) (by decide)
  obtain ⟨piece, hpiece⟩ := List.exists_mem_of_ne_nil pieces h.operated
  have hop : piece.1 = .subtract ∨ piece.1 = .multiply ∨ piece.1 = .modulo ∨ piece.1 = .power :=
    .inr (.inr (.inr (hops piece hpiece)))
  unfold Typed PowerMatched
  rw [inferLevel_numeric (timeless_of_described h.described) (by simp) hdivide
    (List.mem_map_of_mem hpiece) hop, map_unit_ok hnumeric, numericResultType]
  split
  · rename_i hfloat
    obtain ⟨o, ho, heq⟩ := List.mem_map.mp hfloat
    exact iff_of_true .float ⟨o, ho, by simp [heq]⟩
  · split
    · rename_i hall
      refine iff_of_false (by simp) fun ⟨o, ho, hne⟩ => ?_
      have hinteger := List.all_eq_true.mp hall _ (List.mem_map_of_mem ho)
      rcases htypes o ho with heq | heq | heq
      · exact hne heq
      · exact absurd (heq ▸ hinteger) (by decide)
      · exact absurd (heq ▸ hinteger) (by decide)
    · rename_i hall
      refine iff_of_true (.any _) ?_
      by_contra hnone
      refine hall (List.all_eq_true.mpr fun t ht => ?_)
      obtain ⟨o, ho, rfl⟩ := List.mem_map.mp ht
      have hinteger : o.1 = .integer := Classical.byContradiction fun hne => hnone ⟨o, ho, hne⟩
      simp [hinteger]

/-! ## 4. Sums with a list -/

/-- Where the type of a level of sums and concatenations is right: without a list always. -/
def AdditiveMatched (ops : List BinaryOp) (level : List Operand) : Prop :=
  (∃ o ∈ level, o.2 = .list) →
    if .subtract ∈ ops then ∀ o ∈ level, o.1 = .integer ∨ o.1 = .any
    else if .add ∈ ops then
      ¬ ((∀ o ∈ level, isNumericOrUnknown o.1) ∧ ∃ o ∈ level, o.1 = .float)
    else ¬ ∀ o ∈ level, isStringOrUnknown o.1

theorem Describes.list_type {t : CypherType} (h : Describes t .list) :
    t = .any ∨ isList t = true := by
  cases h with
  | any => exact .inl rfl
  | list => exact .inr rfl

theorem Describes.ne_null (h : Describes t k) (hk : k ≠ .null) : t ≠ .null := by
  intro heq
  rw [heq] at h
  cases h
  exact hk rfl

section Lists

variable {level : List Operand}

theorem numericResultType_any {o : Operand} (ho : o ∈ level) (hany : o.1 = .any)
    (hfloat : .float ∉ level.map (·.1)) : numericResultType (level.map (·.1)) = .any := by
  rw [numericResultType, if_neg hfloat, if_neg]
  intro hints
  have ho' := List.all_eq_true.mp hints _ (List.mem_map_of_mem ho)
  exact absurd (hany ▸ ho') (by decide)

theorem numeric_list (hdescribed : ∀ o ∈ level, Describes o.1 o.2)
    (hpresent : ∀ o ∈ level, o.2 ≠ .null) (hlist : ∃ o ∈ level, o.2 = .list) :
    (∃ t, ((requireNumeric (level.map (·.1))).map fun _ => numericResultType (level.map (·.1)))
        = .ok t ∧ Describes t .list) ↔ ∀ o ∈ level, o.1 = .integer ∨ o.1 = .any := by
  obtain ⟨o, ho, hkind⟩ := hlist
  constructor
  · intro ⟨t, ht, hd⟩ p hp
    obtain ⟨_, hrequired, rfl⟩ := map_eq_ok.mp ht
    have hall : (level.map (·.1)).all isNumericOrUnknown = true := by
      by_contra hno
      rw [requireNumeric, if_neg hno] at hrequired
      cases hrequired
    have hnofloat : .float ∉ level.map (·.1) := by
      intro hfloat
      rw [numericResultType, if_pos hfloat] at hd
      cases hd
    rcases isNumericOrUnknown_iff.mp (List.all_eq_true.mp hall _ (List.mem_map_of_mem hp)) with
      heq | heq | heq | heq
    · exact .inl heq
    · exact absurd (heq ▸ List.mem_map_of_mem hp) hnofloat
    · exact .inr heq
    · exact absurd heq ((hdescribed p hp).ne_null (hpresent p hp))
  · intro hall
    have hany : o.1 = .any := by
      rcases hall o ho with heq | heq
      · have hd := hdescribed o ho
        rw [heq, hkind] at hd
        cases hd
      · exact heq
    have hrequired : requireNumeric (level.map (·.1)) = .ok () := by
      refine requireNumeric_ok fun t ht => ?_
      obtain ⟨p, hp, rfl⟩ := List.mem_map.mp ht
      rcases hall p hp with heq | heq <;> simp [heq]
    have hnofloat : .float ∉ level.map (·.1) := by
      intro hfloat
      obtain ⟨p, hp, heq⟩ := List.mem_map.mp hfloat
      rcases hall p hp with heq' | heq' <;> exact absurd (heq'.symm.trans heq) (by decide)
    refine ⟨.any, ?_, .any _⟩
    rw [hrequired, numericResultType_any ho hany hnofloat]
    rfl

theorem plus_list (hdescribed : ∀ o ∈ level, Describes o.1 o.2) (hlist : ∃ o ∈ level, o.2 = .list) :
    (∃ t, plusResultType (level.map (·.1)) = .ok t ∧ Describes t .list) ↔
      ¬ ((∀ o ∈ level, isNumericOrUnknown o.1) ∧ ∃ o ∈ level, o.1 = .float) := by
  obtain ⟨o, ho, hkind⟩ := hlist
  have htype : o.1 = .any ∨ isList o.1 = true := (hkind ▸ hdescribed o ho).list_type
  have hmem := List.mem_map_of_mem (f := (·.1)) ho
  unfold plusResultType
  by_cases hnumeric : (level.map (·.1)).all isNumericOrUnknown = true
  · rw [if_pos hnumeric]
    have hall : ∀ p ∈ level, isNumericOrUnknown p.1 = true :=
      List.forall_mem_map.mp (List.all_eq_true.mp hnumeric)
    have hany : o.1 = .any := by
      rcases htype with heq | hl
      · exact heq
      · rcases isNumericOrUnknown_iff.mp (hall o ho) with heq | heq | heq | heq <;>
          rw [heq] at hl <;> cases hl
    constructor
    · intro ⟨t, ht, hd⟩ ⟨_, p, hp, hfloat⟩
      cases ht
      rw [numericResultType, if_pos (hfloat ▸ List.mem_map_of_mem hp)] at hd
      cases hd
    · intro hno
      have hnofloat : .float ∉ level.map (·.1) := by
        intro hfloat
        obtain ⟨p, hp, heq⟩ := List.mem_map.mp hfloat
        exact hno ⟨hall, p, hp, heq⟩
      exact ⟨.any, by rw [numericResultType_any ho hany hnofloat], .any _⟩
  · rw [if_neg hnumeric]
    refine iff_of_true ?_ fun ⟨hall, _⟩ =>
      hnumeric (List.all_eq_true.mpr (List.forall_mem_map.mpr hall))
    split
    · rename_i hstrings
      have hany : CypherType.any ∈ level.map (·.1) := by
        rcases htype with heq | hl
        · exact heq ▸ hmem
        · rcases isStringOrUnknown_iff.mp (List.all_eq_true.mp hstrings _ hmem) with
            heq | heq | heq <;> rw [heq] at hl <;> cases hl
      exact ⟨.any, by rw [if_pos hany], .any _⟩
    · split
      · exact ⟨_, rfl, .list _⟩
      · rename_i hnolist
        have hany : CypherType.any ∈ level.map (·.1) := by
          rcases htype with heq | hl
          · exact heq ▸ hmem
          · exact absurd (List.any_eq_true.mpr ⟨_, hmem, hl⟩) hnolist
        exact ⟨.any, by rw [if_pos hany], .any _⟩

theorem concat_list (hdescribed : ∀ o ∈ level, Describes o.1 o.2)
    (hlists : ∀ o ∈ level, o.2 = .list) :
    (∃ t, concatResultType (level.map (·.1)) = .ok t ∧ Describes t .list) ↔
      ¬ ∀ o ∈ level, isStringOrUnknown o.1 := by
  unfold concatResultType
  by_cases hstrings : (level.map (·.1)).all isStringOrUnknown = true
  · rw [if_pos hstrings]
    refine iff_of_false (fun ⟨t, ht, hd⟩ => ?_) fun hno =>
      hno (List.forall_mem_map.mp (List.all_eq_true.mp hstrings))
    cases ht
    cases hd
  · rw [if_neg hstrings]
    have hall : (level.map (·.1)).all isListOrUnknown = true := by
      refine List.all_eq_true.mpr (List.forall_mem_map.mpr fun o ho => isListOrUnknown_iff.mpr ?_)
      rcases (hlists o ho ▸ hdescribed o ho).list_type with heq | hl
      · exact .inr (.inl heq)
      · exact .inl hl
    rw [if_pos hall]
    exact iff_of_true ⟨_, rfl, .list _⟩ fun hno =>
      hstrings (List.all_eq_true.mpr (List.forall_mem_map.mpr hno))

end Lists

/-! ## 5. Sums without a list -/

theorem inferLevel_sum {types : List CypherType} {ops : List BinaryOp} (h : Timeless types)
    (htypes : types ≠ []) (hne : ops ≠ []) (hnumeric : ∀ t ∈ types, isNumericOrUnknown t = true)
    (hops : ∀ op ∈ ops, op = .add ∨ op = .subtract) :
    inferLevel types ops = .ok (numericResultType types) := by
  have hdivide : .divide ∉ ops := fun hmem => absurd (hops _ hmem) (by decide)
  by_cases hsubtract : .subtract ∈ ops
  · rw [inferLevel_numeric h htypes hdivide hsubtract (.inl rfl), requireNumeric_ok hnumeric]
    rfl
  · have hadd : ∀ op ∈ ops, op = .add := by
      intro op hop
      rcases hops op hop with heq | heq
      · exact heq
      · exact absurd (heq ▸ hop) hsubtract
    obtain ⟨op, hop⟩ := List.exists_mem_of_ne_nil ops hne
    rw [inferLevel_plus h htypes (fun op hop => .inl (hadd op hop)) (hadd op hop ▸ hop),
      plusResultType, if_pos (List.all_eq_true.mpr hnumeric)]

theorem typed_of_numeric (h : Evaluated first pieces)
    (hnumeric : ∀ o ∈ operandsOf first pieces, isNumericOrUnknown o.1 = true)
    (hops : ∀ piece ∈ pieces, piece.1 = .add ∨ piece.1 = .subtract)
    (hd : Describes (numericResultType ((operandsOf first pieces).map (·.1))) k) :
    Typed first pieces k := by
  refine ⟨_, inferLevel_sum (timeless_of_described h.described) (by simp)
    (by simpa using h.operated) ?_ ?_, hd⟩
  · exact List.forall_mem_map.mpr hnumeric
  · exact List.forall_mem_map.mpr hops

theorem Kind.of_family_number (h : k.family = .number) : k.IsNumber := by
  cases k <;> first | exact .inl rfl | exact .inr rfl | cases h

theorem Kind.of_family_text (h : k.family = .text) : k = .string := by
  cases k <;> first | rfl | cases h

theorem Describes.of_temporal (h : Describes t k) (hk : k.family = .temporal) : t = .any := by
  cases h <;> first | rfl | cases hk

theorem typed_of_text (h : Evaluated first pieces)
    (hstrings : ∀ o ∈ operandsOf first pieces, o.2 = .string)
    (hops : ∀ piece ∈ pieces, piece.1 = .add ∨ piece.1 = .concat) :
    Typed first pieces .string := by
  have htimeless := timeless_of_described h.described
  have hops' : ∀ op ∈ pieces.map (·.1), op = .add ∨ op = .concat := List.forall_mem_map.mpr hops
  have htypes : ∀ o ∈ operandsOf first pieces, isStringOrUnknown o.1 = true := by
    intro o ho
    have hd := h.described o ho
    rw [hstrings o ho] at hd
    cases heq : o.1 <;> rw [heq] at hd <;> cases hd <;> rfl
  have hall := List.all_eq_true.mpr (List.forall_mem_map.mpr htypes)
  by_cases hadd : .add ∈ pieces.map (·.1)
  · unfold Typed
    rw [inferLevel_plus htimeless (by simp) hops' hadd, plusResultType]
    by_cases hnumeric : ((operandsOf first pieces).map (·.1)).all isNumericOrUnknown = true
    · -- Every type is unknown, and so is the type of the sum.
      have hfirst : isNumericOrUnknown first.1 = true :=
        List.all_eq_true.mp hnumeric _ (.head _)
      have hany : first.1 = .any := by
        rcases isStringOrUnknown_iff.mp (htypes first (.head _)) with heq | heq | heq
        · rw [heq] at hfirst
          cases hfirst
        · exact heq
        · exact absurd heq ((h.described first (.head _)).ne_null
            (h.present first (.head _)))
      have hnofloat : .float ∉ (operandsOf first pieces).map (·.1) := by
        intro hfloat
        have hf := List.all_eq_true.mp hall _ hfloat
        exact absurd hf (by decide)
      rw [if_pos hnumeric, numericResultType_any List.mem_cons_self hany hnofloat]
      exact ⟨_, rfl, .any _⟩
    · rw [if_neg hnumeric, if_pos hall]
      split
      · exact ⟨_, rfl, .any _⟩
      · exact ⟨_, rfl, .string⟩
  · have hconcat : ∀ op ∈ pieces.map (·.1), op = .concat := by
      intro op hop
      rcases hops' op hop with heq | heq
      · exact absurd (heq ▸ hop) hadd
      · exact heq
    refine ⟨.string, ?_, .string⟩
    rw [inferLevel_concat htimeless (by simp) (by simpa using h.operated) hconcat,
      concatResultType, if_pos hall]

/-- **The type is right where the types show the lists.** -/
theorem additive_list (h : Evaluated first pieces) (hrun : KindRun first.2 pieces k)
    (hops : ∀ piece ∈ pieces, piece.1.IsAdditive)
    (hlist : ∃ o ∈ operandsOf first pieces, o.2 = .list) :
    Typed first pieces k ↔ AdditiveMatched (pieces.map (·.1)) (operandsOf first pieces) := by
  have htimeless := timeless_of_described h.described
  obtain ⟨hmem, hle⟩ := hrun.highest
  have hk : k = .list := by
    obtain ⟨o, ho, hkind⟩ := hlist
    have hge := hle _ (List.mem_map_of_mem ho)
    rw [hkind] at hge
    cases k <;> first | rfl | exact absurd hge (by decide)
  subst hk
  have hdivide : .divide ∉ pieces.map (·.1) := by
    intro hmem
    obtain ⟨piece, hpiece, heq⟩ := List.mem_map.mp hmem
    exact absurd (heq ▸ hops piece hpiece) (by simp [BinaryOp.IsAdditive])
  rw [AdditiveMatched, forall_prop_of_true hlist]
  unfold Typed
  by_cases hsubtract : .subtract ∈ pieces.map (·.1)
  · rw [if_pos hsubtract, inferLevel_numeric htimeless (by simp) hdivide hsubtract (.inl rfl)]
    exact numeric_list h.described h.present hlist
  · rw [if_neg hsubtract]
    have hops' : ∀ op ∈ pieces.map (·.1), op = .add ∨ op = .concat := by
      refine List.forall_mem_map.mpr fun piece hpiece => ?_
      rcases hops piece hpiece with heq | heq | heq
      · exact .inl heq
      · exact absurd (heq ▸ List.mem_map_of_mem hpiece) hsubtract
      · exact .inr heq
    by_cases hadd : .add ∈ pieces.map (·.1)
    · rw [if_pos hadd, inferLevel_plus htimeless (by simp) hops' hadd]
      exact plus_list h.described hlist
    · have hconcat : ∀ piece ∈ pieces, piece.1 = .concat := by
        intro piece hpiece
        have hp := List.mem_map_of_mem (f := (·.1)) hpiece
        rcases hops' _ hp with heq | heq
        · exact absurd (heq ▸ hp) hadd
        · exact heq
      have hsame := hrun.concat hconcat
      rw [if_neg hadd, inferLevel_concat htimeless (by simp) (by simpa using h.operated)
        (List.forall_mem_map.mpr hconcat)]
      refine concat_list h.described ?_
      have hfirst : first.2 = .list := by
        obtain ⟨o, ho, hkind⟩ := hlist
        exact (forall_operands (P := fun o => o.2 = first.2)).mpr ⟨rfl, hsame⟩ o ho ▸ hkind
      exact forall_operands.mpr ⟨hfirst, fun piece hpiece => (hsame piece hpiece).trans hfirst⟩

/-- **The type of a sum without lists is right.** -/
theorem additive_plain (h : Evaluated first pieces) (hrun : KindRun first.2 pieces k)
    (hops : ∀ piece ∈ pieces, piece.1.IsAdditive)
    (hnolist : ∀ o ∈ operandsOf first pieces, o.2 ≠ .list) : Typed first pieces k := by
  obtain ⟨hmem, hle⟩ := hrun.highest
  obtain ⟨hfirst, hrest⟩ := forall_operands.mp hnolist
  have hkeeps := hrun.keeps hops hfirst hrest
  have hfamily : ∀ o ∈ operandsOf first pieces, o.2.family = first.2.family :=
    forall_operands.mpr ⟨rfl, fun piece hpiece => (hkeeps piece hpiece).same⟩
  have hsums (hne : first.2.family ≠ .text) :
      ∀ piece ∈ pieces, piece.1 = .add ∨ piece.1 = .subtract := by
    intro piece hpiece
    rcases hops piece hpiece with heq | heq | heq
    · exact .inl heq
    · exact .inr heq
    · exact absurd heq ((hkeeps piece hpiece).other hne)
  cases hfirst' : first.2.family with
  | number =>
    have hnumbers : ∀ o ∈ operandsOf first pieces, o.2.IsNumber := fun o ho =>
      Kind.of_family_number ((hfamily o ho).trans hfirst')
    refine typed_of_numeric h (fun o ho => ?_) (hsums (by simp [hfirst'])) ?_
    · rcases (h.described o ho).numeric (.inl (hnumbers o ho)) with heq | heq | heq <;> simp [heq]
    · refine (numericResult_described h.described (fun o ho => .inl (hnumbers o ho)) hmem
        hle).mpr fun _ o ho heq => ?_
      rcases hnumbers o ho with hn | hn <;> exact absurd (hn.symm.trans heq) (by decide)
  | temporal =>
    have hany : ∀ o ∈ operandsOf first pieces, o.1 = .any := fun o ho =>
      (h.described o ho).of_temporal ((hfamily o ho).trans hfirst')
    refine typed_of_numeric h (fun o ho => by simp [hany o ho]) (hsums (by simp [hfirst'])) ?_
    rw [numericResultType_any List.mem_cons_self (hany first List.mem_cons_self)]
    · exact .any _
    · intro hfloat
      obtain ⟨o, ho, heq⟩ := List.mem_map.mp hfloat
      exact absurd ((hany o ho).symm.trans heq) (by decide)
  | text =>
    have hstrings : ∀ o ∈ operandsOf first pieces, o.2 = .string := fun o ho =>
      Kind.of_family_text ((hfamily o ho).trans hfirst')
    have hk : k = .string := by
      obtain ⟨o, ho, rfl⟩ := List.mem_map.mp hmem
      exact hstrings o ho
    subst hk
    refine typed_of_text h hstrings fun piece hpiece => ?_
    rcases hops piece hpiece with heq | heq | heq
    · exact .inl heq
    · exact absurd heq ((hkeeps piece hpiece).text hfirst')
    · exact .inr heq
  | none =>
    obtain ⟨piece, hpiece⟩ := List.exists_mem_of_ne_nil pieces h.operated
    exact absurd hfirst' (hkeeps piece hpiece).known

theorem additive_described (h : Evaluated first pieces) (hrun : KindRun first.2 pieces k)
    (hops : ∀ piece ∈ pieces, piece.1.IsAdditive) :
    Typed first pieces k ↔ AdditiveMatched (pieces.map (·.1)) (operandsOf first pieces) := by
  by_cases hlist : ∃ o ∈ operandsOf first pieces, o.2 = .list
  · exact additive_list h hrun hops hlist
  · refine iff_of_true (additive_plain h hrun hops ?_) fun h => absurd h hlist
    exact fun o ho heq => hlist ⟨o, ho, heq⟩

end Levels

end Lithograph.Query.Expression
