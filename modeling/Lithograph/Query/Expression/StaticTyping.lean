/-
  File:      Lithograph/Query/Expression/StaticTyping.lean
  Subject:   The type of an expression against its value.

  * **`agrees_iff_matched`**: given that the operands agree, an expression agrees exactly where its
    literal is in range and its level is matched; **`typing_agrees`**: for all parts at once.
-/
import Lithograph.Query.Expression.Levels
import Lithograph.Query.Spill.DistinctKey

namespace Lithograph.Query.Expression

open Library Storage Cypher

/-! ## 1. The parts of an expression -/

/-- The expressions an expression is made of; a smallest integer is made of none. -/
def operands : Ast → List Ast
  | .literal _ | .variable _ | .parameter _ => []
  | .list items => items
  | .additive first rest => first :: rest.map (·.2)
  | .multiplicative first rest => first :: rest.map (·.2)
  | .power first rest => first :: rest
  | .unary signs operand => if isI64MinUnaryExpression signs operand then [] else [operand]

/-- The operators between the operands, or before the only one. -/
def operators : Ast → List BinaryOp
  | .literal _ | .variable _ | .parameter _ | .list _ => []
  | .additive _ rest => rest.map fun piece => piece.1.op
  | .multiplicative _ rest => rest.map fun piece => piece.1.op
  | .power _ rest => rest.map fun _ => .power
  | .unary signs _ => signs.map Sign.op

/-- `part` is the expression or stands somewhere in it. -/
inductive Part (part : Ast) : Ast → Prop where
  | self : Part part part
  | operand {a e : Ast} (ha : a ∈ operands e) (h : Part part a) : Part part e

variable {e first : Ast} {types : List CypherType} {t : CypherType} {rest : List (BinaryOp × Ast)}
  {left : Value}

theorem sizeOf_operand {a : Ast} (ha : a ∈ operands e) : sizeOf a < sizeOf e := by
  have hpair {α : Type} [SizeOf α] {rest : List (α × Ast)} (hmem : a ∈ rest.map (·.2)) :
      sizeOf a < sizeOf rest := by
    obtain ⟨⟨op, b⟩, hp, rfl⟩ := List.mem_map.mp hmem
    have hlt := List.sizeOf_lt_of_mem hp
    simp only [Prod.mk.sizeOf_spec] at hlt
    simp only
    omega
  cases e with
  | literal | «variable» | parameter => cases ha
  | list items =>
    have hlt : sizeOf a < sizeOf items := List.sizeOf_lt_of_mem ha
    rw [Ast.list.sizeOf_spec]
    omega
  | additive first rest =>
    rw [Ast.additive.sizeOf_spec]
    rcases List.mem_cons.mp ha with rfl | ha
    · omega
    · have hlt := hpair ha
      omega
  | multiplicative first rest =>
    rw [Ast.multiplicative.sizeOf_spec]
    rcases List.mem_cons.mp ha with rfl | ha
    · omega
    · have hlt := hpair ha
      omega
  | power first rest =>
    rw [Ast.power.sizeOf_spec]
    rcases List.mem_cons.mp ha with rfl | ha
    · omega
    · have hlt := List.sizeOf_lt_of_mem ha
      omega
  | unary signs operand =>
    rw [Ast.unary.sizeOf_spec]
    simp only [operands] at ha
    split at ha
    · cases ha
    · rw [List.mem_singleton.mp ha]
      omega

theorem operands_induction {motive : Ast → Prop}
    (h : ∀ e, (∀ a ∈ operands e, motive a) → motive e) (e : Ast) : motive e :=
  h e fun a _ => operands_induction h a
termination_by sizeOf e
decreasing_by exact sizeOf_operand ‹_›

/-! ## 2. Types from the types of the operands -/

/-- The type of an expression whose operands have the types `types`. -/
def inferAt : Ast → List CypherType → Inferred CypherType
  | .literal value, _ => inferLiteral value
  | .variable _, _ | .parameter _, _ => .ok .any
  | .list _, types => .ok (.list (commonType types))
  | .unary signs operand, types =>
    if isI64MinUnaryExpression signs operand then .ok .integer
    else inferLevel types (signs.map Sign.op)
  | e, types => inferLevel types (operators e)

theorem inferAll_eq : ∀ items : List Ast, inferAll items = items.mapM infer
  | [] => rfl
  | item :: rest => by
    rw [inferAll, List.mapM_cons, inferAll_eq rest]

theorem inferAdditive_eq : ∀ rest : List (AdditiveOperator × Ast),
    inferAdditive rest = (rest.map (·.2)).mapM infer
  | [] => rfl
  | (_, operand) :: rest => by
    rw [inferAdditive, List.map_cons, List.mapM_cons, inferAdditive_eq rest]

theorem inferMultiplicative_eq : ∀ rest : List (MultiplicativeOperator × Ast),
    inferMultiplicative rest = (rest.map (·.2)).mapM infer
  | [] => rfl
  | (_, operand) :: rest => by
    rw [inferMultiplicative, List.map_cons, List.mapM_cons, inferMultiplicative_eq rest]

/-- **The type is made from the types of the operands.** -/
theorem infer_eq (e : Ast) : infer e = (operands e).mapM infer >>= inferAt e := by
  cases e with
  | literal value => simp [infer, operands, inferAt]
  | «variable» | parameter => simp [infer, operands, inferAt]
  | list items =>
    rw [infer, inferAll_eq]
    rfl
  | additive first rest =>
    simp [infer, inferAdditive_eq, operands, inferAt, operators]
  | multiplicative first rest =>
    simp [infer, inferMultiplicative_eq, operands, inferAt, operators]
  | power first rest =>
    simp [infer, inferAll_eq, operands, inferAt, operators]
  | unary signs operand =>
    by_cases hmin : isI64MinUnaryExpression signs operand = true
    · simp [infer, operands, inferAt, hmin]
    · simp [infer, operands, inferAt, hmin]

/-- A type that some kind has, as analysis gives it: no type of an instant or a duration. -/
def Plain (t : CypherType) : Prop := ∃ k, Describes t k

theorem Plain.timeless {types : List CypherType} (h : ∀ t ∈ types, Plain t) : Timeless types := by
  intro t ht
  obtain ⟨k, hk⟩ := h t ht
  exact hk.timeless

theorem plain_numericResult (types : List CypherType) : Plain (numericResultType types) := by
  unfold numericResultType
  split
  · exact ⟨_, .float⟩
  · split
    · exact ⟨_, .integer⟩
    · exact ⟨.other, .any _⟩

theorem plain_plusResult (h : plusResultType types = .ok t) : Plain t := by
  unfold plusResultType at h
  split at h
  · cases h
    exact plain_numericResult types
  · split at h
    · cases h
      split
      · exact ⟨.other, .any _⟩
      · exact ⟨_, .string⟩
    · split at h
      · cases h
        exact ⟨_, .list _⟩
      · split at h
        · cases h
          exact ⟨.other, .any _⟩
        · cases h

theorem plain_concatResult (h : concatResultType types = .ok t) : Plain t := by
  unfold concatResultType at h
  split at h
  · cases h
    exact ⟨_, .string⟩
  · split at h
    · cases h
      exact ⟨_, .list _⟩
    · cases h

theorem plain_common (h : ∀ t ∈ types, Plain t) : Plain (commonType types) := by
  unfold commonType
  split
  · exact ⟨.other, .any _⟩
  · rename_i first rest heq
    have hfirst : first ∈ types :=
      List.mem_of_mem_filter (heq ▸ (.head _) : first ∈ types.filter (· ≠ .null))
    split
    · exact h first hfirst
    · split
      · exact ⟨_, .float⟩
      · exact ⟨.other, .any _⟩

theorem plain_level {ops : List BinaryOp} (htypes : ∀ t ∈ types, Plain t)
    (h : inferLevel types ops = .ok t) : Plain t := by
  unfold inferLevel at h
  split at h
  · cases h
    cases types with
    | nil => exact ⟨.other, .any _⟩
    | cons first rest => exact htypes first (.head _)
  · unfold inferFromChildren at h
    split at h
    · cases h
      exact ⟨.other, .any _⟩
    · unfold inferArithmeticOperator at h
      rw [inferTemporalArithmetic_none (Plain.timeless htypes)] at h
      split at h
      · rename_i result hresult
        subst h
        simp only at hresult
        split at hresult
        · obtain ⟨_, _, rfl⟩ := map_eq_ok.mp (Option.some.inj hresult)
          exact ⟨_, .float⟩
        · split at hresult
          · obtain ⟨_, _, rfl⟩ := map_eq_ok.mp (Option.some.inj hresult)
            exact plain_numericResult types
          · split at hresult
            · exact plain_plusResult (Option.some.inj hresult)
            · split at hresult
              · exact plain_concatResult (Option.some.inj hresult)
              · cases hresult
      · cases h
        exact plain_common htypes

theorem plain_at (htypes : ∀ t ∈ types, Plain t) (h : inferAt e types = .ok t) : Plain t := by
  cases e with
  | literal value =>
    cases value with
    | null => cases h; exact ⟨_, .null⟩
    | boolean => cases h; exact ⟨_, .boolean⟩
    | integer =>
      simp only [inferAt, inferLiteral] at h
      split at h <;> cases h
      exact ⟨_, .integer⟩
    | float =>
      simp only [inferAt, inferLiteral] at h
      split at h <;> cases h
      exact ⟨_, .float⟩
    | string =>
      obtain ⟨_, _, rfl⟩ := map_eq_ok.mp h
      exact ⟨_, .string⟩
  | «variable» | parameter => cases h; exact ⟨.other, .any _⟩
  | list => cases h; exact ⟨_, .list _⟩
  | additive | multiplicative | power => exact plain_level htypes h
  | unary signs operand =>
    simp only [inferAt] at h
    split at h
    · cases h
      exact ⟨_, .integer⟩
    · exact plain_level htypes h

theorem infer_plain (e : Ast) : ∀ {t : CypherType}, infer e = .ok t → Plain t := by
  induction e using operands_induction with
  | h e ih =>
    intro t ht
    rw [infer_eq, bind_eq_ok] at ht
    obtain ⟨types, htypes, ht⟩ := ht
    refine plain_at (fun t' ht' => ?_) ht
    obtain ⟨a, ha, hat⟩ := exists_of_mem_mapM htypes t' ht'
    exact ih a ha hat

/-! ## 3. Values from the values of the operands -/

section Values

variable {arithmetic : Arithmetic} {env : Env} {value : Value}

/-- An operator and its right operand, compiled. -/
def compilePiece (piece : BinaryOp × Ast) : QueryResult (BinaryOp × Expr) := do
  let operand ← compile piece.2
  return (piece.1, operand)

theorem compileAll_eq : ∀ items : List Ast, compileAll items = items.mapM compile
  | [] => rfl
  | item :: rest => by
    rw [compileAll, List.mapM_cons, compileAll_eq rest]

theorem compileAdditive_eq : ∀ rest : List (AdditiveOperator × Ast),
    compileAdditive rest = (rest.map fun piece => (piece.1.op, piece.2)).mapM compilePiece
  | [] => rfl
  | (_, operand) :: rest => by
    rw [compileAdditive, List.map_cons, List.mapM_cons, compileAdditive_eq rest]
    simp [compilePiece]

theorem compileMultiplicative_eq : ∀ rest : List (MultiplicativeOperator × Ast),
    compileMultiplicative rest = (rest.map fun piece => (piece.1.op, piece.2)).mapM compilePiece
  | [] => rfl
  | (_, operand) :: rest => by
    rw [compileMultiplicative, List.map_cons, List.mapM_cons, compileMultiplicative_eq rest]
    simp [compilePiece]

/-- One step of a level: the right operand is evaluated and the operator is applied. -/
def StepsTo (arithmetic : Arithmetic) (env : Env) (left : Value) (piece : BinaryOp × Ast)
    (result : Value) : Prop :=
  ∃ right, run arithmetic env piece.2 = .ok right ∧
    evaluateBinary arithmetic piece.1 left right = .ok result

theorem run_compiled {compiled : Expr} (hcompiled : compile e = .ok compiled) :
    run arithmetic env e = evaluate arithmetic env compiled := by
  rw [run, hcompiled, ok_bind]

theorem evaluate_fold : ∀ {rest : List (BinaryOp × Ast)} {compiled : List (BinaryOp × Expr)}
    {result : Expr}, rest.mapM compilePiece = .ok compiled →
      evaluate arithmetic env (foldOperators result compiled) = .ok value →
      ∃ left, evaluate arithmetic env result = .ok left ∧
        Folds (StepsTo arithmetic env) left rest value
  | [], compiled, result, hrest, h => by
    cases hrest
    exact ⟨value, h, .nil value⟩
  | piece :: rest, compiled, result, hrest, h => by
    rw [List.mapM_cons, bind_eq_ok] at hrest
    obtain ⟨c, hc, hrest⟩ := hrest
    obtain ⟨cs, hcs, hrest⟩ := bind_eq_ok.mp hrest
    cases hrest
    obtain ⟨operand, hoperand, hc⟩ := bind_eq_ok.mp hc
    cases hc
    obtain ⟨middle, hmiddle, hfolds⟩ := evaluate_fold hcs h
    rw [evaluate, bind_eq_ok] at hmiddle
    obtain ⟨left, hleft, hmiddle⟩ := hmiddle
    obtain ⟨right, hright, hbinary⟩ := bind_eq_ok.mp hmiddle
    exact ⟨left, hleft, .cons ⟨right, (run_compiled hoperand).trans hright, hbinary⟩ hfolds⟩

theorem run_fold (hcompile : compile e = do
      let first ← compile first
      let rest ← rest.mapM compilePiece
      return foldOperators first rest) (h : run arithmetic env e = .ok value) :
    ∃ left, run arithmetic env first = .ok left ∧
      Folds (StepsTo arithmetic env) left rest value := by
  obtain ⟨compiled, hcompiled, h⟩ := bind_eq_ok.mp h
  rw [hcompile, bind_eq_ok] at hcompiled
  obtain ⟨c, hc, hcompiled⟩ := hcompiled
  obtain ⟨cs, hcs, hcompiled⟩ := bind_eq_ok.mp hcompiled
  cases hcompiled
  obtain ⟨left, hleft, hfolds⟩ := evaluate_fold hcs h
  exact ⟨left, (run_compiled hc).trans hleft, hfolds⟩

theorem run_additive {rest : List (AdditiveOperator × Ast)}
    (h : run arithmetic env (.additive first rest) = .ok value) :
    ∃ left, run arithmetic env first = .ok left ∧
      Folds (StepsTo arithmetic env) left (rest.map fun piece => (piece.1.op, piece.2)) value :=
  run_fold (by rw [compile, compileAdditive_eq]) h

theorem run_multiplicative {rest : List (MultiplicativeOperator × Ast)}
    (h : run arithmetic env (.multiplicative first rest) = .ok value) :
    ∃ left, run arithmetic env first = .ok left ∧
      Folds (StepsTo arithmetic env) left (rest.map fun piece => (piece.1.op, piece.2)) value :=
  run_fold (by rw [compile, compileMultiplicative_eq]) h

theorem evaluate_power : ∀ {rest : List Ast} {compiled : List Expr} {first : Expr} {value : Value},
    rest.mapM compile = .ok compiled → (∀ a ∈ rest, run arithmetic env a ≠ .ok .null) →
      evaluate arithmetic env (foldPower first compiled) = .ok value →
      ∃ left, evaluate arithmetic env first = .ok left ∧ (left.kind ≠ .null →
        (∀ a ∈ rest, ∃ right, run arithmetic env a = .ok right ∧ right.kind.IsNumber) ∧
        (rest = [] ∧ value = left ∨ left.kind.IsNumber ∧ value.kind = .float))
  | [], compiled, first, value, hrest, _, h => by
    cases hrest
    exact ⟨value, h, fun _ => ⟨fun _ ha => absurd ha List.not_mem_nil, .inl ⟨rfl, rfl⟩⟩⟩
  | operand :: rest, compiled, first, value, hrest, hpresent, h => by
    rw [List.mapM_cons, bind_eq_ok] at hrest
    obtain ⟨c, hc, hrest⟩ := hrest
    obtain ⟨cs, hcs, hrest⟩ := bind_eq_ok.mp hrest
    cases hrest
    rw [foldPower, evaluate, bind_eq_ok] at h
    obtain ⟨left, hleft, h⟩ := h
    obtain ⟨exponent, hexponent, h⟩ := bind_eq_ok.mp h
    obtain ⟨right, hright, hpowers⟩ :=
      evaluate_power hcs (fun a ha => hpresent a (.tail _ ha)) hexponent
    rw [← run_compiled hc] at hright
    have hnull : right.kind ≠ .null := by
      intro heq
      refine hpresent operand (.head _) (hright.trans ?_)
      cases right <;> first | rfl | cases heq
    obtain ⟨hnumbers, hexponent'⟩ := hpowers hnull
    refine ⟨left, hleft, fun hleft' => ?_⟩
    have hexponentNull : exponent.kind ≠ .null := by
      rcases hexponent' with ⟨_, rfl⟩ | ⟨_, hfloat⟩
      · exact hnull
      · rw [hfloat]
        decide
    obtain ⟨hl, he, hvalue⟩ := evaluatePower_kind hleft' hexponentNull h
    refine ⟨List.forall_mem_cons.mpr ⟨⟨right, hright, ?_⟩, hnumbers⟩, .inr ⟨hl, hvalue⟩⟩
    rcases hexponent' with ⟨_, rfl⟩ | ⟨hr, _⟩
    · exact he
    · exact hr

theorem evaluate_signs {operand : Expr} : ∀ {signs : List Sign} {value : Value}, signs ≠ [] →
    evaluate arithmetic env (applySigns operand signs) = .ok value →
      ∃ inner, evaluate arithmetic env operand = .ok inner ∧ inner.kind.IsNumber ∧
        value.kind = inner.kind
  | [], _, hne, _ => absurd rfl hne
  | sign :: signs, value, _, h => by
    have hstep : ∃ op inner, evaluate arithmetic env (applySigns operand signs) = .ok inner ∧
        evaluateUnary arithmetic op inner = .ok value := by
      cases sign with
      | plus => exact ⟨.positive, bind_eq_ok.mp h⟩
      | minus => exact ⟨.negative, bind_eq_ok.mp h⟩
    obtain ⟨op, inner, hinner, hvalue⟩ := hstep
    obtain ⟨hnumber, hkind⟩ := evaluateUnary_kind hvalue
    by_cases hne : signs = []
    · subst hne
      exact ⟨inner, hinner, hnumber, hkind⟩
    · obtain ⟨inner', hinner', hnumber', hkind'⟩ := evaluate_signs hne hinner
      exact ⟨inner', hinner', hnumber', hkind.trans hkind'⟩

end Values

/-! ## 4. Agreement -/

/-- The value of an expression has its type, and what has no type has no value. -/
structure Agrees (arithmetic : Arithmetic) (env : Env) (e : Ast) : Prop where
  typed : ∀ t value, infer e = .ok t → t ≠ .any → run arithmetic env e = .ok value →
    typeCompatible (ofValue value) t = true
  rejected : ∀ fault, infer e = .error fault → ∃ error, run arithmetic env e = .error error

/-- The type of an operand; one without a type shows none. -/
def typeOf (e : Ast) : CypherType :=
  match infer e with
  | .ok t => t
  | .error _ => .any

/-- The kind of the value of an operand. -/
def kindOf (arithmetic : Arithmetic) (env : Env) (e : Ast) : Kind :=
  match run arithmetic env e with
  | .ok value => value.kind
  | .error _ => .null

/-- What analysis and evaluation see of an operand. -/
def seen (arithmetic : Arithmetic) (env : Env) (e : Ast) : Operand :=
  (typeOf e, kindOf arithmetic env e)

/-- A literal passes the check that only analysis makes: a float is finite, and a text has no
escapes but the known ones. -/
def LiteralChecked : Literal → Prop
  | .float value => isFinite value = true
  | .string text => validateStringLiteral text = .ok ()
  | _ => True

/-- The literal of an expression, or its level of operators, is one that analysis types rightly. -/
def LevelMatched : Ast → List Operand → Prop
  | .literal value, _ => LiteralChecked value
  | .additive first rest, level =>
    rest ≠ [] → AdditiveMatched (operators (.additive first rest)) level
  | .multiplicative first rest, level =>
    rest ≠ [] → MultiplicativeMatched (operators (.multiplicative first rest)) level
  | .power _ rest, level => rest ≠ [] → PowerMatched level
  | _, _ => True

/-- An expression with a value is matched. -/
def Matched (arithmetic : Arithmetic) (env : Env) (e : Ast) : Prop :=
  ∀ value, run arithmetic env e = .ok value →
    LevelMatched e ((operands e).map (seen arithmetic env))

section Agreement

variable {arithmetic : Arithmetic} {env : Env} {e : Ast} {value : Value}

theorem compatible_iff (h : Plain t) (hany : t ≠ .any) :
    typeCompatible (ofValue value) t = true ↔ Describes t value.kind := by
  obtain ⟨k, hk⟩ := h
  constructor
  · intro hcompatible
    cases hk with
    | any => exact absurd rfl hany
    | null | boolean | integer | float | string | list =>
      cases value <;> first | constructor | cases hcompatible
  · intro hdescribes
    cases hk with
    | any => exact absurd rfl hany
    | null | boolean | integer | float | string | list =>
      cases value <;> first | rfl | cases hdescribes

theorem agrees_iff : Agrees arithmetic env e ↔
    ∀ value, run arithmetic env e = .ok value → ∃ t, infer e = .ok t ∧ Describes t value.kind := by
  constructor
  · intro h value hrun
    cases hinfer : infer e with
    | error fault =>
      obtain ⟨error, herror⟩ := h.rejected fault hinfer
      rw [hrun] at herror
      cases herror
    | ok t =>
      refine ⟨t, rfl, ?_⟩
      by_cases hany : t = .any
      · exact hany ▸ .any _
      · exact (compatible_iff (infer_plain e hinfer) hany).mp (h.typed t value hinfer hany hrun)
  · intro h
    refine ⟨fun t value hinfer hany hrun => ?_, fun fault hinfer => ?_⟩
    · obtain ⟨t', hinfer', hd⟩ := h value hrun
      rw [hinfer] at hinfer'
      cases hinfer'
      exact (compatible_iff (infer_plain e hinfer) hany).mpr hd
    · cases hrun : run arithmetic env e with
      | error error => exact ⟨error, rfl⟩
      | ok value =>
        obtain ⟨t, hinfer', _⟩ := h value hrun
        rw [hinfer] at hinfer'
        cases hinfer'

theorem Agrees.shown (h : Agrees arithmetic env e) (hrun : run arithmetic env e = .ok value) :
    infer e = .ok (typeOf e) ∧ Describes (typeOf e) (kindOf arithmetic env e) := by
  obtain ⟨t, hinfer, hd⟩ := agrees_iff.mp h value hrun
  have htype : typeOf e = t := by rw [typeOf, hinfer]
  have hkind : kindOf arithmetic env e = value.kind := by rw [kindOf, hrun]
  rw [htype, hkind]
  exact ⟨hinfer, hd⟩

theorem kind_null : value.kind = .null ↔ value = .null := by
  cases value <;> simp [Value.kind]

/-! ### Levels of operators -/

section Levels

variable {first : Ast} {rest : List (BinaryOp × Ast)}

/-- A level whose operands agree, evaluate and are present. -/
structure LevelReady (arithmetic : Arithmetic) (env : Env) (first : Ast)
    (rest : List (BinaryOp × Ast)) : Prop where
  operated : rest ≠ []
  agree : ∀ a ∈ first :: rest.map (·.2), Agrees arithmetic env a
  evaluate : ∀ a ∈ first :: rest.map (·.2), ∃ value, run arithmetic env a = .ok value
  present : ∀ a ∈ first :: rest.map (·.2), run arithmetic env a ≠ .ok .null

/-- What is seen of the operands after the first. -/
def piecesOf (arithmetic : Arithmetic) (env : Env) (rest : List (BinaryOp × Ast)) : List Piece :=
  rest.map fun piece => (piece.1, seen arithmetic env piece.2)

theorem operandsOf_seen : operandsOf (seen arithmetic env first) (piecesOf arithmetic env rest) =
    (first :: rest.map (·.2)).map (seen arithmetic env) := by
  simp [operandsOf, piecesOf, Function.comp_def]

theorem LevelReady.evaluated (h : LevelReady arithmetic env first rest) :
    Evaluated (seen arithmetic env first) (piecesOf arithmetic env rest) where
  operated := by simpa [piecesOf] using h.operated
  described := by
    rw [operandsOf_seen]
    refine List.forall_mem_map.mpr fun a ha => ?_
    obtain ⟨value, hrun⟩ := h.evaluate a ha
    exact ((h.agree a ha).shown hrun).2
  present := by
    rw [operandsOf_seen]
    refine List.forall_mem_map.mpr fun a ha => ?_
    obtain ⟨value, hrun⟩ := h.evaluate a ha
    have hkind : (seen arithmetic env a).2 = value.kind := by rw [seen, kindOf, hrun]
    rw [hkind, Ne, kind_null]
    intro hnull
    exact h.present a ha (hnull ▸ hrun)

theorem LevelReady.typed_iff (h : LevelReady arithmetic env first rest)
    (hinfer : infer e = (first :: rest.map (·.2)).mapM infer >>=
      fun types => inferLevel types (rest.map (·.1))) {k : Kind} :
    (∃ t, infer e = .ok t ∧ Describes t k) ↔
      Typed (seen arithmetic env first) (piecesOf arithmetic env rest) k := by
  have hall : (first :: rest.map (·.2)).mapM infer =
      .ok ((first :: rest.map (·.2)).map typeOf) := by
    refine mapM_of_forall₂ (List.forall₂_map_right_iff.mpr ?_)
    refine List.forall₂_same.mpr fun a ha => ?_
    obtain ⟨value, hrun⟩ := h.evaluate a ha
    exact ((h.agree a ha).shown hrun).1
  have htypes : (operandsOf (seen arithmetic env first) (piecesOf arithmetic env rest)).map (·.1) =
      (first :: rest.map (·.2)).map typeOf := by
    rw [operandsOf_seen, List.map_map]
    rfl
  have hops : (piecesOf arithmetic env rest).map (·.1) = rest.map (·.1) := by
    rw [piecesOf, List.map_map]
    rfl
  rw [Typed, htypes, hops, hinfer, hall, ok_bind]

theorem LevelReady.kindRun (h : LevelReady arithmetic env first rest)
    (hops : ∀ piece ∈ rest, piece.1 ≠ .power) (hleft : run arithmetic env first = .ok left)
    (hfolds : Folds (StepsTo arithmetic env) left rest value) :
    KindRun (seen arithmetic env first).2 (piecesOf arithmetic env rest) value.kind := by
  have hkind {a : Ast} {x : Value} (hx : run arithmetic env a = .ok x) :
      kindOf arithmetic env a = x.kind := by rw [kindOf, hx]
  have hpresent {a : Ast} {x : Value} (ha : run arithmetic env a ≠ .ok .null)
      (hx : run arithmetic env a = .ok x) : x.kind ≠ .null :=
    fun heq => ha (kind_null.mp heq ▸ hx)
  have hstep (l : Value) (piece : BinaryOp × Ast) (m : Value) (hl : l.kind ≠ .null)
      (hpiece : piece.1 ≠ .power ∧ run arithmetic env piece.2 ≠ .ok .null)
      (hsteps : StepsTo arithmetic env l piece m) :
      Yields piece.1 l.kind (seen arithmetic env piece.2).2 m.kind ∧ m.kind ≠ .null := by
    obtain ⟨right, hright, hbinary⟩ := hsteps
    have hyields := evaluateBinary_yields hpiece.1 hl (hpresent hpiece.2 hright) hbinary
    rw [← hkind hright] at hyields
    exact ⟨hyields, hyields.present⟩
  have hpieces : ∀ piece ∈ rest, piece.1 ≠ .power ∧ run arithmetic env piece.2 ≠ .ok .null :=
    fun piece hpiece => ⟨hops piece hpiece,
      h.present _ (.tail _ (List.mem_map_of_mem hpiece))⟩
  have hrun : Folds (fun (k : Kind) (piece : Piece) l => Yields piece.1 k piece.2.2 l) left.kind
      (rest.map fun piece => (piece.1, seen arithmetic env piece.2)) value.kind ∧
        value.kind ≠ .null :=
    Folds.map (P := fun v => v.kind ≠ .null) Value.kind
      (fun piece => (piece.1, seen arithmetic env piece.2)) hstep hfolds
      (hpresent (h.present first (.head _)) hleft) hpieces
  rw [← hkind hleft] at hrun
  exact hrun.1

theorem LevelReady.of_folds (hne : rest ≠ [])
    (hagree : ∀ a ∈ first :: rest.map (·.2), Agrees arithmetic env a)
    (hpresent : ∀ a ∈ first :: rest.map (·.2), run arithmetic env a ≠ .ok .null)
    (hleft : run arithmetic env first = .ok left)
    (hfolds : Folds (StepsTo arithmetic env) left rest value) :
    LevelReady arithmetic env first rest := by
  refine ⟨hne, hagree, ?_, hpresent⟩
  have hvalues : ∀ piece ∈ rest, ∃ right, run arithmetic env piece.2 = .ok right :=
    (Folds.forall (P := fun _ => True) (R := fun _ => True)
      (fun _ _ _ _ _ hstep => ⟨hstep.imp fun _ h => h.1, trivial⟩) hfolds trivial
      fun _ _ => trivial).1
  exact List.forall_mem_cons.mpr ⟨⟨left, hleft⟩, List.forall_mem_map.mpr hvalues⟩

theorem peeled_typed (hinfer : infer e = infer first) (hagree : Agrees arithmetic env first)
    (hrun : run arithmetic env first = .ok value) :
    ∃ t, infer e = .ok t ∧ Describes t value.kind := by
  rw [hinfer]
  exact agrees_iff.mp hagree value hrun

end Levels

/-! ### One expression -/

/-- The operands of an expression agree, and those of its operators are present. -/
structure OperandsReady (arithmetic : Arithmetic) (env : Env) (e : Ast) : Prop where
  agree : ∀ a ∈ operands e, Agrees arithmetic env a
  present : operators e ≠ [] → ∀ a ∈ operands e, run arithmetic env a ≠ .ok .null

/-- The value of the expression has its type exactly where its level is matched. -/
def TypedWhereMatched (arithmetic : Arithmetic) (env : Env) (e : Ast) (value : Value) : Prop :=
  (∃ t, infer e = .ok t ∧ Describes t value.kind) ↔
    LevelMatched e ((operands e).map (seen arithmetic env))

theorem piecesOf_operators : (piecesOf arithmetic env rest).map (·.1) = rest.map (·.1) := by
  simp [piecesOf, Function.comp_def]

/-- **A level of operators other than powers is typed where it is matched.** -/
theorem level_typed {p : BinaryOp → Prop} {matched : List BinaryOp → List Operand → Prop}
    (hready : OperandsReady arithmetic env e) (hoperands : operands e = first :: rest.map (·.2))
    (hoperators : operators e = rest.map (·.1))
    (hinfer : infer e = (operands e).mapM infer >>= fun types => inferLevel types (operators e))
    (hpeeled : rest = [] → infer e = infer first)
    (hmatched : ∀ level, LevelMatched e level ↔ (rest ≠ [] → matched (operators e) level))
    (hops : ∀ piece ∈ rest, p piece.1 ∧ piece.1 ≠ .power)
    (hdescribed : ∀ {o : Operand} {pieces : List (BinaryOp × Operand)} {k : Kind},
      Evaluated o pieces → KindRun o.2 pieces k → (∀ piece ∈ pieces, p piece.1) →
        (Typed o pieces k ↔ matched (pieces.map (·.1)) (operandsOf o pieces)))
    (hrun : ∃ left, run arithmetic env first = .ok left ∧
      Folds (StepsTo arithmetic env) left rest value) :
    TypedWhereMatched arithmetic env e value := by
  obtain ⟨left, hleft, hfolds⟩ := hrun
  rw [TypedWhereMatched, hmatched]
  by_cases hrest : rest = []
  · subst hrest
    cases hfolds
    have hfirst : first ∈ operands e := hoperands ▸ (.head _)
    exact iff_of_true (peeled_typed (hpeeled rfl) (hready.agree first hfirst) hleft)
      fun hne => absurd rfl hne
  · have hoperated : operators e ≠ [] := by simpa [hoperators] using hrest
    have hlevel := LevelReady.of_folds hrest (hoperands ▸ hready.agree)
      (hoperands ▸ hready.present hoperated) hleft hfolds
    have hkinds := hlevel.kindRun (fun piece h => (hops piece h).2) hleft hfolds
    have htyped := hdescribed hlevel.evaluated hkinds
      (List.forall_mem_map.mpr fun piece h => (hops piece h).1)
    rw [piecesOf_operators, ← hoperators, operandsOf_seen, ← hoperands] at htyped
    rw [hoperators, hoperands] at hinfer
    rw [hlevel.typed_iff hinfer, htyped, forall_prop_of_true hrest]

theorem additive_typed {rest : List (AdditiveOperator × Ast)}
    (hready : OperandsReady arithmetic env (.additive first rest))
    (hrun : run arithmetic env (.additive first rest) = .ok value) :
    TypedWhereMatched arithmetic env (.additive first rest) value := by
  refine level_typed hready (by simp [operands, Function.comp_def])
    (by simp [operators, Function.comp_def]) (infer_eq _) (fun hrest => ?_) (fun level => ?_)
    (List.forall_mem_map.mpr fun piece _ => ?_) additive_described (run_additive hrun)
  · rw [List.map_eq_nil_iff.mp hrest]
    cases hfirst : infer first <;> rw [infer, hfirst] <;> rfl
  · simp [LevelMatched]
  · cases piece.1 <;> simp [AdditiveOperator.op, BinaryOp.IsAdditive]

theorem multiplicative_typed {rest : List (MultiplicativeOperator × Ast)}
    (hready : OperandsReady arithmetic env (.multiplicative first rest))
    (hrun : run arithmetic env (.multiplicative first rest) = .ok value) :
    TypedWhereMatched arithmetic env (.multiplicative first rest) value := by
  refine level_typed hready (by simp [operands, Function.comp_def])
    (by simp [operators, Function.comp_def]) (infer_eq _) (fun hrest => ?_) (fun level => ?_)
    (List.forall_mem_map.mpr fun piece _ => ?_) multiplicative_described (run_multiplicative hrun)
  · rw [List.map_eq_nil_iff.mp hrest]
    cases hfirst : infer first <;> rw [infer, hfirst] <;> rfl
  · simp [LevelMatched]
  · cases piece.1 <;> simp [MultiplicativeOperator.op, BinaryOp.IsMultiplicative]

theorem run_power {rest : List Ast} (hpresent : ∀ a ∈ rest, run arithmetic env a ≠ .ok .null)
    (h : run arithmetic env (.power first rest) = .ok value) :
    ∃ left, run arithmetic env first = .ok left ∧ (left.kind ≠ .null →
      (∀ a ∈ rest, ∃ right, run arithmetic env a = .ok right ∧ right.kind.IsNumber) ∧
      (rest = [] ∧ value = left ∨ left.kind.IsNumber ∧ value.kind = .float)) := by
  obtain ⟨compiled, hcompiled, h⟩ := bind_eq_ok.mp h
  rw [compile, bind_eq_ok] at hcompiled
  obtain ⟨c, hc, hcompiled⟩ := hcompiled
  obtain ⟨cs, hcs, hcompiled⟩ := bind_eq_ok.mp hcompiled
  cases hcompiled
  rw [compileAll_eq] at hcs
  obtain ⟨left, hleft, hpowers⟩ := evaluate_power hcs hpresent h
  exact ⟨left, (run_compiled hc).trans hleft, hpowers⟩

theorem power_typed {rest : List Ast} (hready : OperandsReady arithmetic env (.power first rest))
    (hrun : run arithmetic env (.power first rest) = .ok value) :
    TypedWhereMatched arithmetic env (.power first rest) value := by
  by_cases hrest : rest = []
  · subst hrest
    obtain ⟨compiled, hcompiled, h⟩ := bind_eq_ok.mp hrun
    rw [compile, bind_eq_ok] at hcompiled
    obtain ⟨c, hc, hcompiled⟩ := hcompiled
    cases hcompiled
    refine iff_of_true (peeled_typed ?_ (hready.agree first (.head _))
      ((run_compiled hc).trans h)) fun hne => absurd rfl hne
    cases hfirst : infer first <;> rw [infer, hfirst] <;> rfl
  · have hoperands : operands (.power first rest) =
        first :: (rest.map fun a => (BinaryOp.power, a)).map (·.2) := by
      simp [operands, Function.comp_def]
    have hoperators : operators (.power first rest) =
        (rest.map fun a => (BinaryOp.power, a)).map (·.1) := by
      simp [operators, Function.comp_def]
    have hpresent := hready.present (by simpa [operators] using hrest)
    obtain ⟨left, hleft, hpowers⟩ :=
      run_power (fun a ha => hpresent a (.tail _ ha)) hrun
    have hnull : left.kind ≠ .null :=
      fun heq => hpresent first (.head _) (kind_null.mp heq ▸ hleft)
    obtain ⟨hrights, hvalue⟩ := hpowers hnull
    obtain ⟨hnumber, hfloat⟩ := hvalue.resolve_left fun h => hrest h.1
    -- Every operand is a number.
    have hnumbers : ∀ a ∈ operands (.power first rest),
        ∃ x, run arithmetic env a = .ok x ∧ x.kind.IsNumber :=
      List.forall_mem_cons.mpr ⟨⟨left, hleft, hnumber⟩, hrights⟩
    have hlevel : LevelReady arithmetic env first (rest.map fun a => (BinaryOp.power, a)) :=
      ⟨by simpa using hrest, hoperands ▸ hready.agree,
        hoperands ▸ fun a ha => (hnumbers a ha).imp fun _ h => h.1, hoperands ▸ hpresent⟩
    have hinfer := infer_eq (.power first rest)
    have hseen : ∀ o ∈ operandsOf (seen arithmetic env first)
        (piecesOf arithmetic env (rest.map fun a => (BinaryOp.power, a))), o.2.IsNumber := by
      rw [operandsOf_seen, ← hoperands]
      refine List.forall_mem_map.mpr fun a ha => ?_
      obtain ⟨x, hx, hn⟩ := hnumbers a ha
      rw [seen, kindOf, hx]
      exact hn
    have hpieces : ∀ piece ∈ piecesOf arithmetic env (rest.map fun a => (BinaryOp.power, a)),
        piece.1 = .power :=
      List.forall_mem_map.mpr <| List.forall_mem_map.mpr fun _ _ => rfl
    have hmatched := power_described hlevel.evaluated hseen hpieces
    rw [operandsOf_seen, ← hoperands] at hmatched
    rw [hoperands] at hinfer
    change _ = _ >>= fun types => inferLevel types (operators (.power first rest)) at hinfer
    rw [hoperators] at hinfer
    rw [TypedWhereMatched, hlevel.typed_iff hinfer, hfloat, hmatched, LevelMatched,
      forall_prop_of_true hrest]

theorem numericResultType_singleton (h : t = .integer ∨ t = .float ∨ t = .any) :
    numericResultType [t] = t := by
  rcases h with rfl | rfl | rfl <;> decide

theorem inferLevel_signs {signs : List Sign} (hne : signs ≠ [])
    (h : t = .integer ∨ t = .float ∨ t = .any) : inferLevel [t] (signs.map Sign.op) = .ok t := by
  have htimeless : Timeless [t] := by
    intro t' ht'
    rw [List.mem_singleton.mp ht']
    rcases h with rfl | rfl | rfl <;> exact ⟨by decide, rfl⟩
  have hsigns (sign : Sign) : sign.op = .add ∨ sign.op = .subtract := by
    cases sign <;> simp [Sign.op]
  rw [inferLevel_sum htimeless (by simp) (by simpa using hne) ?_
    (List.forall_mem_map.mpr fun sign _ => hsigns sign), numericResultType_singleton h]
  intro t' ht'
  rw [List.mem_singleton.mp ht']
  rcases h with rfl | rfl | rfl <;> simp

theorem unary_typed {signs : List Sign} {operand : Ast}
    (hready : OperandsReady arithmetic env (.unary signs operand))
    (hrun : run arithmetic env (.unary signs operand) = .ok value) :
    TypedWhereMatched arithmetic env (.unary signs operand) value := by
  refine iff_of_true ?_ trivial
  obtain ⟨compiled, hcompiled, h⟩ := bind_eq_ok.mp hrun
  rw [compile] at hcompiled
  split at hcompiled
  · rename_i hmin
    cases hcompiled
    cases h
    exact ⟨.integer, by rw [infer, if_pos hmin], .integer⟩
  · rename_i hmin
    obtain ⟨c, hc, hcompiled⟩ := bind_eq_ok.mp hcompiled
    cases hcompiled
    have hoperand : operand ∈ operands (.unary signs operand) := by simp [operands, hmin]
    have hagree := hready.agree operand hoperand
    by_cases hsigns : signs = []
    · subst hsigns
      refine peeled_typed ?_ hagree ((run_compiled hc).trans h)
      rw [infer, if_neg hmin]
      cases hfirst : infer operand <;> rfl
    · obtain ⟨inner, hinner, hnumber, hkind⟩ := evaluate_signs hsigns h
      obtain ⟨t, hinfer, hd⟩ := agrees_iff.mp hagree inner ((run_compiled hc).trans hinner)
      refine ⟨t, ?_, hkind ▸ hd⟩
      rw [infer, if_neg hmin, hinfer, ok_bind]
      exact inferLevel_signs hsigns (hd.numeric (.inl hnumber))

theorem literal_typed {literal : Literal}
    (hrun : run arithmetic env (.literal literal) = .ok value) :
    TypedWhereMatched arithmetic env (.literal literal) value := by
  obtain ⟨compiled, hcompiled, h⟩ := bind_eq_ok.mp hrun
  rw [compile, bind_eq_ok] at hcompiled
  obtain ⟨value', hvalue, hcompiled⟩ := hcompiled
  cases hcompiled
  cases h
  unfold TypedWhereMatched
  rw [infer]
  cases literal with
  | null =>
    cases hvalue
    exact iff_of_true ⟨_, rfl, .null⟩ trivial
  | boolean =>
    cases hvalue
    exact iff_of_true ⟨_, rfl, .boolean⟩ trivial
  | integer magnitude =>
    rw [compileLiteral] at hvalue
    split at hvalue
    · rename_i hle
      cases hvalue
      exact iff_of_true ⟨.integer, by rw [inferLiteral, if_pos hle], .integer⟩ trivial
    · cases hvalue
  | float x =>
    cases hvalue
    rw [inferLiteral]
    by_cases hfinite : isFinite x = true
    · exact iff_of_true ⟨.float, by rw [if_pos hfinite], .float⟩ hfinite
    · refine iff_of_false ?_ hfinite
      rintro ⟨t, ht, _⟩
      rw [if_neg hfinite] at ht
      cases ht
  | string text =>
    obtain ⟨parsed, _, hvalue⟩ := bind_eq_ok.mp hvalue
    cases hvalue
    rw [inferLiteral]
    cases hvalid : validateStringLiteral text with
    | ok => exact iff_of_true ⟨.string, rfl, .string⟩ hvalid
    | error fault =>
      refine iff_of_false ?_ fun h => ?_
      · rintro ⟨t, ht, _⟩
        cases ht
      · rw [LevelMatched, LiteralChecked, hvalid] at h
        cases h

theorem items_run : ∀ {items : List Ast} {compiled : List Expr} {values : List Value},
    items.mapM compile = .ok compiled → evaluateAll arithmetic env compiled = .ok values →
      ∀ a ∈ items, ∃ x, run arithmetic env a = .ok x
  | [], _, _, _, _, _, ha => absurd ha List.not_mem_nil
  | item :: rest, compiled, values, hcompile, h, a, ha => by
    rw [List.mapM_cons, bind_eq_ok] at hcompile
    obtain ⟨c, hc, hcompile⟩ := hcompile
    obtain ⟨cs, hcs, hcompile⟩ := bind_eq_ok.mp hcompile
    cases hcompile
    rw [evaluateAll, bind_eq_ok] at h
    obtain ⟨x, hx, h⟩ := h
    obtain ⟨xs, hxs, _⟩ := bind_eq_ok.mp h
    rcases List.mem_cons.mp ha with rfl | ha
    · exact ⟨x, (run_compiled hc).trans hx⟩
    · exact items_run hcs hxs a ha

theorem list_typed {items : List Ast} (hready : OperandsReady arithmetic env (.list items))
    (hrun : run arithmetic env (.list items) = .ok value) :
    TypedWhereMatched arithmetic env (.list items) value := by
  refine iff_of_true ?_ trivial
  obtain ⟨compiled, hcompiled, h⟩ := bind_eq_ok.mp hrun
  rw [compile, compileAll_eq, bind_eq_ok] at hcompiled
  obtain ⟨cs, hcs, hcompiled⟩ := hcompiled
  cases hcompiled
  rw [evaluate, bind_eq_ok] at h
  obtain ⟨values, hvalues, h⟩ := h
  cases h
  have htypes : ∀ a ∈ items, ∃ t, infer a = .ok t := by
    intro a ha
    obtain ⟨x, hx⟩ := items_run hcs hvalues a ha
    exact (agrees_iff.mp (hready.agree a ha) x hx).imp fun _ h => h.1
  obtain ⟨types, htypes⟩ := mapM_total htypes
  refine ⟨.list (commonType types), ?_, .list _⟩
  rw [infer, inferAll_eq, htypes]
  rfl

/-- **Where its operands agree, an expression agrees exactly where it is matched.** -/
theorem agrees_iff_matched (hready : OperandsReady arithmetic env e) :
    Agrees arithmetic env e ↔ Matched arithmetic env e := by
  rw [agrees_iff]
  refine forall₂_congr fun value hrun => ?_
  cases e with
  | literal => exact literal_typed hrun
  | «variable» | parameter => exact iff_of_true ⟨.any, rfl, .any _⟩ trivial
  | list => exact list_typed hready hrun
  | additive => exact additive_typed hready hrun
  | multiplicative => exact multiplicative_typed hready hrun
  | power => exact power_typed hready hrun
  | unary => exact unary_typed hready hrun

end Agreement

/-! ## 5. All parts of an expression -/

/-- No operand of an operator is null. -/
def OperandsPresent (arithmetic : Arithmetic) (env : Env) (e : Ast) : Prop :=
  ∀ part, Part part e → operators part ≠ [] → ∀ a ∈ operands part, run arithmetic env a ≠ .ok .null

/-- **The types of an expression and of its parts agree with their values exactly where every level
of operators, and every literal, is matched.** -/
theorem typing_agrees (arithmetic : Arithmetic) (env : Env) (e : Ast)
    (hpresent : OperandsPresent arithmetic env e) :
    (∀ part, Part part e → Agrees arithmetic env part) ↔
      ∀ part, Part part e → Matched arithmetic env part := by
  induction e using operands_induction with
  | h e ih =>
    have hparts (a : Ast) (ha : a ∈ operands e) : OperandsPresent arithmetic env a :=
      fun part hpart => hpresent part (.operand ha hpart)
    have hself (hagree : ∀ a ∈ operands e, Agrees arithmetic env a) :
        Agrees arithmetic env e ↔ Matched arithmetic env e :=
      agrees_iff_matched ⟨hagree, hpresent e .self⟩
    constructor
    · intro h part hpart
      cases hpart with
      | self => exact (hself fun a ha => h a (.operand ha .self)).mp (h e .self)
      | operand ha hpart =>
        exact (ih _ ha (hparts _ ha)).mp (fun part hpart => h part (.operand ha hpart)) part hpart
    · intro h
      have hagree : ∀ a ∈ operands e, ∀ part, Part part a → Agrees arithmetic env part :=
        fun a ha => (ih a ha (hparts a ha)).mpr fun part hpart => h part (.operand ha hpart)
      intro part hpart
      cases hpart with
      | self => exact (hself fun a ha => hagree a ha a .self).mpr (h e .self)
      | operand ha hpart => exact hagree _ ha part hpart

/-- No floats and no durations, for expressions without them. -/
def wholeArithmetic : Arithmetic where
  ofInteger _ := ⟨0⟩
  neg x := x
  add x _ := x
  sub x _ := x
  mul x _ := x
  div x _ := x
  rem x _ := x
  powf x _ := x
  scaledDuration duration _ := .ok duration
  shiftDate value _ := .ok value
  shiftLocalTime value _ := .ok value
  shiftTime value _ := .ok value
  shiftLocalDateTime value _ := .ok value
  shiftZonedDateTime value _ := .ok value

/-- The float 0.5. -/
def oneHalf : F64 := ⟨0x3fe0000000000000⟩

/-- The products of a half and a normal float, beside what there is without floats. -/
def halving : Arithmetic :=
  { wholeArithmetic with
    ofInteger := integerAsFloat
    mul := fun x y => if x = oneHalf then ⟨y.bits - 0x0010000000000000⟩ else x }

/-- A row without columns, and no parameters. -/
def emptyEnv : Env := ⟨fun _ => .null, fun _ => .null⟩

def wholeNumber (n : Nat) : Ast := .literal (.integer n)

theorem present_of_literals (h : ∀ a ∈ operands e, ∃ n, a = wholeNumber n ∧ n ≤ 2 ^ 63 - 1) :
    OperandsPresent wholeArithmetic emptyEnv e := by
  intro part hpart hops a ha
  cases hpart with
  | self =>
    obtain ⟨n, rfl, hle⟩ := h a ha
    intro hnull
    rw [wholeNumber, run, compile, compileLiteral, if_pos hle] at hnull
    cases hnull
  | operand hb hpart =>
    obtain ⟨n, rfl, _⟩ := h _ hb
    cases hpart with
    | self => cases ha
    | operand hc => cases hc

theorem part_literal {part : Ast} {value : Literal} (h : Part part (.literal value)) :
    part = .literal value := by
  cases h with
  | self => rfl
  | operand ha => cases ha

/-- `0.5 * (7 + 5)` is typed `Float` and is the float 6. -/
theorem typing_agrees_product :
    let product : Ast := .multiplicative (.literal (.float oneHalf))
      [(.times, .additive (wholeNumber 7) [(.plus, wholeNumber 5)])]
    Agrees halving emptyEnv product ∧ infer product = .ok .float ∧
      run halving emptyEnv product = .ok (.float ⟨0x4018000000000000⟩) := by
  intro product
  have hparts : ∀ part, Part part product → part = product ∨ part = .literal (.float oneHalf) ∨
      part = .additive (wholeNumber 7) [(.plus, wholeNumber 5)] ∨ part = wholeNumber 7 ∨
        part = wholeNumber 5 := by
    intro part hpart
    cases hpart with
    | self => exact .inl rfl
    | operand ha hpart =>
      rcases List.mem_pair.mp ha with rfl | rfl
      · exact .inr (.inl (part_literal hpart))
      · cases hpart with
        | self => exact .inr (.inr (.inl rfl))
        | operand hb hpart =>
          rcases List.mem_pair.mp hb with rfl | rfl
          · exact .inr (.inr (.inr (.inl (part_literal hpart))))
          · exact .inr (.inr (.inr (.inr (part_literal hpart))))
  refine ⟨(typing_agrees halving emptyEnv product fun part hpart => ?_).mpr
    (fun part hpart value _ => ?_) _ .self, rfl, rfl⟩
  · intro hops a ha
    rcases hparts part hpart with rfl | rfl | rfl | rfl | rfl
    · rcases List.mem_pair.mp ha with rfl | rfl <;> exact fun h => nomatch h
    · cases ha
    · rcases List.mem_pair.mp ha with rfl | rfl <;> exact fun h => nomatch h
    · cases ha
    · cases ha
  · rcases hparts part hpart with rfl | rfl | rfl | rfl | rfl
    · intro _
      unfold MultiplicativeMatched
      decide
    · exact (rfl : isFinite oneHalf = true)
    · intro _
      unfold AdditiveMatched
      decide
    · trivial
    · trivial

/-- `6 / 2` is typed `Float` and is the integer 3; `2 ^ 3` is typed `Integer` and is a float; and
`3 - 2 + [1]` is refused, though it is the list `[1, 1]`. -/
theorem quotient_disagrees :
    let quotient : Ast := .multiplicative (wholeNumber 6) [(.divide, wholeNumber 2)]
    let power : Ast := .power (wholeNumber 2) [wholeNumber 3]
    let sum : Ast :=
      .additive (wholeNumber 3) [(.minus, wholeNumber 2), (.plus, .list [wholeNumber 1])]
    (OperandsPresent wholeArithmetic emptyEnv quotient ∧ infer quotient = .ok .float ∧
      run wholeArithmetic emptyEnv quotient = .ok (.integer 3) ∧
      ¬ Agrees wholeArithmetic emptyEnv quotient) ∧
    (infer power = .ok .integer ∧ ∃ x, run wholeArithmetic emptyEnv power = .ok (.float x)) ∧
    infer sum = .error ⟨"numeric operator received a non-numeric operand"⟩ ∧
      run wholeArithmetic emptyEnv sum = .ok (.list [.integer 1, .integer 1]) := by
  intro quotient power sum
  have hrun : run wholeArithmetic emptyEnv quotient = .ok (.integer 3) := rfl
  have hinfer : infer quotient = .ok .float := rfl
  refine ⟨⟨present_of_literals fun a ha => ?_, hinfer, hrun, fun h => ?_⟩, ⟨rfl, _, rfl⟩, rfl, rfl⟩
  · rcases List.mem_cons.mp ha with rfl | ha
    · exact ⟨6, rfl, by decide⟩
    · exact ⟨2, List.mem_singleton.mp ha, by decide⟩
  · exact absurd (h.typed _ _ hinfer (by decide) hrun) (by decide)

end Lithograph.Query.Expression
