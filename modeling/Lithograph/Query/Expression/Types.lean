/-
  File:      Lithograph/Query/Expression/Types.lean
  Subject:   The types that analysis gives to expressions (`cypher/types.rs`,
             `cypher/types_literal.rs`).

  Modelled are literals, parameters, variables, lists and the operators of arithmetic. An error is
  its message, without the place in the text. A level without operators is its only operand.
-/
import Lithograph.Query.Expression.Value

namespace Lithograph.Query.Expression

open Library Storage Cypher

/-! ## 1. Types -/

inductive CypherType where
  | null
  | boolean
  | integer
  | float
  | string
  | list (element : CypherType)
  | map
  | node
  | relationship
  | path
  | date
  | localTime
  | time
  | localDateTime
  | zonedDateTime
  | duration
  | point
  | vector (coordinateType : Option VectorCoordinateType) (dimension : Option Nat)
  | uuid
  | any
  deriving DecidableEq, Repr

def commonType (types : List CypherType) : CypherType :=
  match types.filter (· ≠ .null) with
  | [] => .any
  | first :: rest =>
    if rest.all (· = first) then first
    else if types.all fun value => value = .integer || value = .float || value = .null then .float
    else .any

mutual

def ofValue : Value → CypherType
  | .null => .null
  | .boolean _ => .boolean
  | .integer _ => .integer
  | .float _ => .float
  | .string _ => .string
  | .list values => .list (commonType (ofValues values))
  | .map _ => .map
  | .node _ => .node
  | .relationship _ => .relationship
  | .path _ => .path
  | .date _ => .date
  | .localTime _ => .localTime
  | .time _ => .time
  | .localDateTime _ => .localDateTime
  | .zonedDateTime _ => .zonedDateTime
  | .duration _ => .duration
  | .point _ => .point
  | .vector value => .vector (some value.values.coordinateType) (some value.values.len)
  | .uuid _ => .uuid

def ofValues : List Value → List CypherType
  | [] => []
  | value :: rest => ofValue value :: ofValues rest

end

def typeCompatible : CypherType → CypherType → Bool
  | .list _, .list _ => true
  | .vector _ _, .vector _ _ => true
  | actual, expected => actual = expected

def isTemporalInstant (value : CypherType) : Bool :=
  value = .date || value = .localTime || value = .time || value = .localDateTime ||
    value = .zonedDateTime

def isNumericType (value : CypherType) : Bool := value = .integer || value = .float

def isNumericOrUnknown (value : CypherType) : Bool :=
  value = .integer || value = .float || value = .any || value = .null

def isStringOrUnknown (value : CypherType) : Bool :=
  value = .string || value = .any || value = .null

def isList : CypherType → Bool
  | .list _ => true
  | _ => false

def isListOrUnknown (value : CypherType) : Bool := isList value || value = .any || value = .null

/-! ## 2. Operators on types -/

/-- The message of a `FrontendError` of kind `Type`. -/
structure FrontendError where
  message : String
  deriving DecidableEq, Repr

abbrev Inferred (α : Type) := Except FrontendError α

/-- `BinaryOp`, as far as it is arithmetic. -/
inductive BinaryOp where
  | add | concat | subtract | multiply | divide | modulo | power
  deriving DecidableEq, Repr

def temporalAddType (left right : CypherType) : Option CypherType :=
  if left = .duration ∧ right = .duration then some .duration
  else if isTemporalInstant left ∧ right = .duration then some left
  else if left = .duration ∧ isTemporalInstant right then some right
  else none

def temporalSubtractType (left right : CypherType) : Option CypherType :=
  if right ≠ .duration then none
  else if left = .duration then some .duration
  else if isTemporalInstant left then some left
  else none

def temporalMultiplyType (left right : CypherType) : Option CypherType :=
  if (left = .duration ∧ isNumericType right) ∨ (isNumericType left ∧ right = .duration) then
    some .duration
  else none

def temporalDivideType (left right : CypherType) : Option CypherType :=
  if left = .duration ∧ isNumericType right then some .duration else none

def temporalArithmeticPair (operator : BinaryOp) (left right : CypherType) : Option CypherType :=
  if left = .any ∨ left = .null ∨ right = .any ∨ right = .null then some .any
  else match operator with
    | .add => temporalAddType left right
    | .subtract => temporalSubtractType left right
    | .multiply => temporalMultiplyType left right
    | .divide => temporalDivideType left right
    | _ => none

/-- The loop of `infer_temporal_arithmetic`. -/
def temporalPairs (result : CypherType) : List (BinaryOp × CypherType) → Inferred CypherType
  | [] => .ok result
  | (operator, right) :: rest =>
    match temporalArithmeticPair operator result right with
    | some result => temporalPairs result rest
    | none => .error ⟨"temporal arithmetic operands are incompatible"⟩

def inferTemporalArithmetic (types : List CypherType) (operators : List BinaryOp) :
    Option (Inferred CypherType) :=
  if operators.isEmpty || !types.any fun value => value = .duration || isTemporalInstant value then
    none
  else if types.length ≠ operators.length + 1 then
    some (.error ⟨"temporal arithmetic expression has an invalid shape"⟩)
  else some (temporalPairs (types.headD .any) (operators.zip types.tail))

def requireNumeric (types : List CypherType) : Inferred Unit :=
  if types.all isNumericOrUnknown then .ok ()
  else .error ⟨"numeric operator received a non-numeric operand"⟩

def numericResultType (types : List CypherType) : CypherType :=
  if .float ∈ types then .float
  else if types.all fun value => value = .integer || value = .null then .integer
  else .any

def plusResultType (types : List CypherType) : Inferred CypherType :=
  if types.all isNumericOrUnknown then .ok (numericResultType types)
  else if types.all isStringOrUnknown then .ok (if .any ∈ types then .any else .string)
  else if types.any isList then .ok (.list .any)
  else if .any ∈ types then .ok .any
  else .error ⟨"+ operands have incompatible types"⟩

def concatResultType (types : List CypherType) : Inferred CypherType :=
  if types.all isStringOrUnknown then .ok .string
  else if types.all isListOrUnknown then .ok (.list .any)
  else .error ⟨"|| operands have incompatible types"⟩

def inferArithmeticOperator (types : List CypherType) (operators : List BinaryOp) :
    Option (Inferred CypherType) :=
  match inferTemporalArithmetic types operators with
  | some result => some result
  | none =>
    if .divide ∈ operators then some ((requireNumeric types).map fun _ => .float)
    else if operators.any fun operator =>
        operator = .subtract || operator = .multiply || operator = .modulo || operator = .power then
      some ((requireNumeric types).map fun _ => numericResultType types)
    else if .add ∈ operators then some (plusResultType types)
    else if .concat ∈ operators then some (concatResultType types)
    else none

/-- `infer_from_children`, for the types and the operators of the children. -/
def inferFromChildren (types : List CypherType) (operators : List BinaryOp) : Inferred CypherType :=
  if types.isEmpty then .ok .any
  else match inferArithmeticOperator types operators with
    | some result => result
    | none => .ok (commonType types)

/-! ## 3. Literals -/

/-- `Literal`: a number is what its text says, and the sign of an integer is an operator. -/
inductive Literal where
  | null
  | boolean (value : Bool)
  | integer (magnitude : Nat)
  | float (value : F64)
  | string (text : Text)
  deriving DecidableEq, Repr

def isAsciiHexDigit (c : Char) : Bool :=
  ('0' ≤ c && c ≤ '9') || ('a' ≤ c && c ≤ 'f') || ('A' ≤ c && c ≤ 'F')

/-- The loop of `validate_string_literal` on what follows the opening quote. -/
def validateEscapes (quote : Char) : Text → Inferred Unit
  | [] => .ok ()
  | [_] => .ok ()
  | '\\' :: 'u' :: rest =>
    match rest with
    | a :: b :: c :: d :: e :: rest =>
      if [a, b, c, d].all isAsciiHexDigit then validateEscapes quote (e :: rest)
      else .error ⟨"Unicode escape must contain four hexadecimal digits"⟩
    | _ => .error ⟨"Unicode escape must contain four hexadecimal digits"⟩
  | c :: d :: rest =>
    if c = quote ∧ d = quote then validateEscapes quote rest
    else if c ≠ '\\' then validateEscapes quote (d :: rest)
    else if d ∈ ['\\', '\'', '"', 'b', 'f', 'n', 'r', 't'] then validateEscapes quote rest
    else .error ⟨"String literal contains an unsupported escape sequence"⟩

def validateStringLiteral (text : Text) : Inferred Unit :=
  match text with
  | quote :: c :: rest => validateEscapes quote (c :: rest)
  | _ => .error ⟨"String literal is malformed"⟩

def inferLiteral : Literal → Inferred CypherType
  | .null => .ok .null
  | .boolean _ => .ok .boolean
  | .integer magnitude =>
    if magnitude ≤ 2 ^ 63 - 1 then .ok .integer
    else .error ⟨"Integer literal is outside INTEGER64 range"⟩
  | .float value =>
    if isFinite value then .ok .float
    else .error ⟨"Float literal exceeds finite binary64 range"⟩
  | .string text => (validateStringLiteral text).map fun _ => .string

/-! ## 4. Expressions -/

inductive AdditiveOperator where
  | plus | minus | concat
  deriving DecidableEq, Repr

inductive MultiplicativeOperator where
  | times | divide | modulo
  deriving DecidableEq, Repr

inductive Sign where
  | plus | minus
  deriving DecidableEq, Repr

def AdditiveOperator.op : AdditiveOperator → BinaryOp
  | .plus => .add
  | .minus => .subtract
  | .concat => .concat

def MultiplicativeOperator.op : MultiplicativeOperator → BinaryOp
  | .times => .multiply
  | .divide => .divide
  | .modulo => .modulo

def Sign.op : Sign → BinaryOp
  | .plus => .add
  | .minus => .subtract

/-- `AstNode`, with one constructor for each rule of the grammar that is modelled. -/
inductive Ast where
  | literal (value : Literal)
  | variable (name : Text)
  | parameter (name : Text)
  | list (items : List Ast)
  | additive (first : Ast) (rest : List (AdditiveOperator × Ast))
  | multiplicative (first : Ast) (rest : List (MultiplicativeOperator × Ast))
  | power (first : Ast) (rest : List Ast)
  | unary (signs : List Sign) (operand : Ast)

mutual

/-- The integer literals among the `descendants` of an expression. -/
def integerLiterals : Ast → List Nat
  | .literal (.integer magnitude) => [magnitude]
  | .literal _ | .variable _ | .parameter _ => []
  | .list items => literalsOfAll items
  | .additive first rest => integerLiterals first ++ literalsOfAdditive rest
  | .multiplicative first rest => integerLiterals first ++ literalsOfMultiplicative rest
  | .power first rest => integerLiterals first ++ literalsOfAll rest
  | .unary _ operand => integerLiterals operand

def literalsOfAll : List Ast → List Nat
  | [] => []
  | item :: rest => integerLiterals item ++ literalsOfAll rest

def literalsOfAdditive : List (AdditiveOperator × Ast) → List Nat
  | [] => []
  | (_, operand) :: rest => integerLiterals operand ++ literalsOfAdditive rest

def literalsOfMultiplicative : List (MultiplicativeOperator × Ast) → List Nat
  | [] => []
  | (_, operand) :: rest => integerLiterals operand ++ literalsOfMultiplicative rest

end

/-- `is_i64_min_unary_expression`: an odd number of minus signs before the only integer literal. -/
def isI64MinUnaryExpression (signs : List Sign) (operand : Ast) : Bool :=
  !signs.isEmpty && signs.count .minus % 2 == 1 && integerLiterals operand == [2 ^ 63]

/-- The type of a level: without operators it is that of its only operand. -/
def inferLevel (types : List CypherType) (operators : List BinaryOp) : Inferred CypherType :=
  if operators.isEmpty then .ok (types.headD .any) else inferFromChildren types operators

mutual

/-- `infer_expression`. -/
def infer : Ast → Inferred CypherType
  | .literal value => inferLiteral value
  | .variable _ | .parameter _ => .ok .any
  | .list items => do
    let types ← inferAll items
    return .list (commonType types)
  | .additive first rest => do
    let type ← infer first
    let types ← inferAdditive rest
    inferLevel (type :: types) (rest.map fun piece => piece.1.op)
  | .multiplicative first rest => do
    let type ← infer first
    let types ← inferMultiplicative rest
    inferLevel (type :: types) (rest.map fun piece => piece.1.op)
  | .power first rest => do
    let type ← infer first
    let types ← inferAll rest
    inferLevel (type :: types) (rest.map fun _ => .power)
  | .unary signs operand =>
    if isI64MinUnaryExpression signs operand then .ok .integer
    else do
      let type ← infer operand
      inferLevel [type] (signs.map Sign.op)

def inferAll : List Ast → Inferred (List CypherType)
  | [] => .ok []
  | item :: rest => do
    let type ← infer item
    let types ← inferAll rest
    return type :: types

def inferAdditive : List (AdditiveOperator × Ast) → Inferred (List CypherType)
  | [] => .ok []
  | (_, operand) :: rest => do
    let type ← infer operand
    let types ← inferAdditive rest
    return type :: types

def inferMultiplicative : List (MultiplicativeOperator × Ast) → Inferred (List CypherType)
  | [] => .ok []
  | (_, operand) :: rest => do
    let type ← infer operand
    let types ← inferMultiplicative rest
    return type :: types

end

end Lithograph.Query.Expression
