/-
  File:      Lithograph/Query/Expression/Operators.lean
  Subject:   Compiling and evaluating arithmetic (`query/expression.rs`,
             `query/expression/operators.rs`, `query/functions/temporal.rs`).

  Operators of one level are folded from the left, powers from the right. No limit of the query
  stops an evaluation. The arithmetic of floats, the calendar and the clocks are parameters.
-/
import Lithograph.Query.Expression.Types

namespace Lithograph.Query.Expression

open Library Storage Cypher

/-! ## 1. Expressions -/

/-- `UnaryOp`, as far as it is arithmetic. -/
inductive UnaryOp where
  | positive | negative
  deriving DecidableEq, Repr

inductive Expr where
  | literal (value : Value)
  | variable (name : Text)
  | parameter (name : Text)
  | list (items : List Expr)
  | unary (op : UnaryOp) (operand : Expr)
  | binary (op : BinaryOp) (left right : Expr)

/-! ## 2. Compiling -/

def invalidUnicode : QueryError := ⟨.semantic, "invalid Unicode String escape"⟩

/-- Four digits of `\u` and the character they name. -/
def unicodeEscape (a b c d : Char) : QueryResult Char := do
  let digits ← [a, b, c, d].mapM fun digit => (hex digit).mapError fun _ => invalidUnicode
  let codepoint := digits.foldl (fun codepoint digit => codepoint * 16 + digit) 0
  if codepoint.isValidChar then .ok (Char.ofNat codepoint) else .error invalidUnicode

/-- The character of an escape, which is the escaped character itself where there is no other. -/
def escapedChar : Char → Char
  | 'n' => '\n'
  | 'r' => '\r'
  | 't' => '\t'
  | 'b' => Char.ofNat 8
  | 'f' => Char.ofNat 12
  | other => other

/-- The loop of `parse_string` on what stands between the quotes. -/
def unescape (quote : Char) : Text → QueryResult Text
  | [] => .ok []
  | [c] => if c = '\\' then .error ⟨.semantic, "unterminated String escape"⟩ else .ok [c]
  | '\\' :: 'u' :: rest =>
    match rest with
    | a :: b :: c :: d :: rest => do
      let character ← unicodeEscape a b c d
      let output ← unescape quote rest
      return character :: output
    | _ => .error invalidUnicode
  | c :: d :: rest =>
    if c = quote ∧ d = quote then do
      let output ← unescape quote rest
      return c :: output
    else if c ≠ '\\' then do
      let output ← unescape quote (d :: rest)
      return c :: output
    else do
      let output ← unescape quote rest
      return escapedChar d :: output

def parseString (text : Text) : QueryResult Text :=
  match text with
  | quote :: c :: rest =>
    if (quote = '\'' ∨ quote = '"') ∧ (c :: rest).getLast? = some quote then
      unescape quote (c :: rest).dropLast
    else .error ⟨.semantic, "invalid String literal"⟩
  | _ => .error ⟨.semantic, "invalid String literal"⟩

def compileLiteral : Literal → QueryResult Value
  | .null => .ok .null
  | .boolean value => .ok (.boolean value)
  | .integer magnitude =>
    if magnitude ≤ 2 ^ 63 - 1 then .ok (.integer magnitude)
    else .error ⟨.semantic, "Integer literal is outside INTEGER64 range"⟩
  | .float value => .ok (.float value)
  | .string text => do
    let value ← parseString text
    return .string value

/-- The fold of `compile_operator_fold`. -/
def foldOperators (result : Expr) (rest : List (BinaryOp × Expr)) : Expr :=
  rest.foldl (fun result piece => .binary piece.1 result piece.2) result

/-- The fold of `compile_power`. -/
def foldPower : Expr → List Expr → Expr
  | left, [] => left
  | left, operand :: rest => .binary .power left (foldPower operand rest)

/-- The loop of `compile_unary`: the sign next to the operand comes first. -/
def applySigns (operand : Expr) : List Sign → Expr
  | [] => operand
  | .plus :: signs => .unary .positive (applySigns operand signs)
  | .minus :: signs => .unary .negative (applySigns operand signs)

mutual

/-- `compile_expression`. -/
def compile : Ast → QueryResult Expr
  | .literal value => do
    let value ← compileLiteral value
    return .literal value
  | .variable name => .ok (.variable name)
  | .parameter name => .ok (.parameter name)
  | .list items => do
    let items ← compileAll items
    return .list items
  | .additive first rest => do
    let first ← compile first
    let rest ← compileAdditive rest
    return foldOperators first rest
  | .multiplicative first rest => do
    let first ← compile first
    let rest ← compileMultiplicative rest
    return foldOperators first rest
  | .power first rest => do
    let first ← compile first
    let rest ← compileAll rest
    return foldPower first rest
  | .unary signs operand =>
    if isI64MinUnaryExpression signs operand then .ok (.literal (.integer (-2 ^ 63)))
    else do
      let operand ← compile operand
      return applySigns operand signs

def compileAll : List Ast → QueryResult (List Expr)
  | [] => .ok []
  | item :: rest => do
    let item ← compile item
    let rest ← compileAll rest
    return item :: rest

def compileAdditive : List (AdditiveOperator × Ast) → QueryResult (List (BinaryOp × Expr))
  | [] => .ok []
  | (operator, operand) :: rest => do
    let operand ← compile operand
    let rest ← compileAdditive rest
    return (operator.op, operand) :: rest

def compileMultiplicative :
    List (MultiplicativeOperator × Ast) → QueryResult (List (BinaryOp × Expr))
  | [] => .ok []
  | (operator, operand) :: rest => do
    let operand ← compile operand
    let rest ← compileMultiplicative rest
    return (operator.op, operand) :: rest

end

/-! ## 3. Numbers and durations -/

/-- What is computed outside of `operators.rs`: floats, and the instants after a duration. -/
structure Arithmetic where
  /-- `as f64`. -/
  ofInteger : Int → F64
  neg : F64 → F64
  add : F64 → F64 → F64
  sub : F64 → F64 → F64
  mul : F64 → F64 → F64
  div : F64 → F64 → F64
  rem : F64 → F64 → F64
  powf : F64 → F64 → F64
  /-- `scaled_duration_from_components`. -/
  scaledDuration : DurationValue → F64 → QueryResult DurationValue
  shiftDate : DateValue → DurationValue → QueryResult DateValue
  shiftLocalTime : LocalTimeValue → DurationValue → QueryResult LocalTimeValue
  shiftTime : TimeValue → DurationValue → QueryResult TimeValue
  shiftLocalDateTime : LocalDateTimeValue → DurationValue → QueryResult LocalDateTimeValue
  shiftZonedDateTime :
    Cypher.ZonedDateTimeValue → DurationValue → QueryResult Cypher.ZonedDateTimeValue

def typeError {α : Type} (message : String) : QueryResult α := .error ⟨.type, message⟩

/-- A checked operation on numbers of 64 bits. -/
def narrow (n : Int) (message : String) : QueryResult Int :=
  if -2 ^ 63 ≤ n ∧ n < 2 ^ 63 then .ok n else typeError message

/-- The components of a duration, negated with `checked_negate` for a subtraction. -/
def directed (duration : DurationValue) (subtract : Bool) : QueryResult DurationValue :=
  if subtract then do
    let months ← narrow (-duration.months) "duration arithmetic overflow"
    let days ← narrow (-duration.days) "duration arithmetic overflow"
    let seconds ← narrow (-duration.seconds) "duration arithmetic overflow"
    let nanoseconds ← narrow (-duration.nanoseconds) "duration arithmetic overflow"
    return ⟨months, days, seconds, nanoseconds⟩
  else .ok duration

/-- `combine_duration`, with the carry of `duration_from_i128`. -/
def combineDuration (left right : DurationValue) (subtract : Bool) : QueryResult DurationValue := do
  let right ← directed right subtract
  let total := left.nanoseconds + right.nanoseconds
  let months ← narrow (left.months + right.months) "duration arithmetic overflow"
  let days ← narrow (left.days + right.days) "duration arithmetic overflow"
  let seconds ←
    narrow (left.seconds + right.seconds + total / 1000000000) "duration arithmetic overflow"
  return ⟨months, days, seconds, total % 1000000000⟩

def scaleDuration (arithmetic : Arithmetic) (duration : DurationValue) (scale : F64) :
    QueryResult DurationValue :=
  if isFinite scale then arithmetic.scaledDuration duration scale
  else typeError "duration scale must be finite"

def divideDuration (arithmetic : Arithmetic) (duration : DurationValue) (divisor : F64) :
    QueryResult DurationValue :=
  if magnitude divisor = 0 ∨ ¬ isFinite divisor then
    typeError "duration divisor must be finite and non-zero"
  else scaleDuration arithmetic duration (arithmetic.div ⟨0x3ff0000000000000⟩ divisor)

def shiftTemporal (arithmetic : Arithmetic) (temporal : Value) (duration : DurationValue)
    (subtract : Bool) : QueryResult Value := do
  let duration ← directed duration subtract
  match temporal with
  | .date value => (arithmetic.shiftDate value duration).map .date
  | .localTime value => (arithmetic.shiftLocalTime value duration).map .localTime
  | .time value => (arithmetic.shiftTime value duration).map .time
  | .localDateTime value => (arithmetic.shiftLocalDateTime value duration).map .localDateTime
  | .zonedDateTime value => (arithmetic.shiftZonedDateTime value duration).map .zonedDateTime
  | _ => typeError "duration can only be added to a temporal instant"

def incompatibleOperand : QueryResult Value :=
  typeError "duration arithmetic received an incompatible operand"

/-- `evaluate_arithmetic` for two durations. -/
def durationsArithmetic (op : BinaryOp) (left right : DurationValue) : QueryResult Value :=
  match op with
  | .add => (combineDuration left right false).map .duration
  | .subtract => (combineDuration left right true).map .duration
  | _ => incompatibleOperand

/-- `evaluate_arithmetic` for a duration on the left only. -/
def durationOnLeft (arithmetic : Arithmetic) (op : BinaryOp) (duration : DurationValue)
    (right : Value) : QueryResult Value :=
  match op, right with
  | .multiply, .integer scale =>
    (scaleDuration arithmetic duration (arithmetic.ofInteger scale)).map .duration
  | .multiply, .float scale => (scaleDuration arithmetic duration scale).map .duration
  | .divide, .integer divisor =>
    (divideDuration arithmetic duration (arithmetic.ofInteger divisor)).map .duration
  | .divide, .float divisor => (divideDuration arithmetic duration divisor).map .duration
  | .add, temporal => shiftTemporal arithmetic temporal duration false
  | _, _ => incompatibleOperand

/-- `evaluate_arithmetic` for a duration on the right only. -/
def durationOnRight (arithmetic : Arithmetic) (op : BinaryOp) (left : Value)
    (duration : DurationValue) : QueryResult Value :=
  match op, left with
  | .multiply, .integer scale =>
    (scaleDuration arithmetic duration (arithmetic.ofInteger scale)).map .duration
  | .multiply, .float scale => (scaleDuration arithmetic duration scale).map .duration
  | .add, temporal => shiftTemporal arithmetic temporal duration false
  | .subtract, temporal => shiftTemporal arithmetic temporal duration true
  | _, _ => incompatibleOperand

/-- `evaluate_arithmetic`. -/
def evaluateTemporalArithmetic (arithmetic : Arithmetic) (op : BinaryOp) :
    Value → Value → Option (QueryResult Value)
  | .duration left, .duration right => some (durationsArithmetic op left right)
  | .duration duration, right => some (durationOnLeft arithmetic op duration right)
  | left, .duration duration => some (durationOnRight arithmetic op left duration)
  | _, _ => none

def arithmeticOverflow : String := "INTEGER64 arithmetic overflow"

def integerBinary (op : BinaryOp) (left right : Int) : QueryResult Value :=
  match op with
  | .add => (narrow (left + right) arithmeticOverflow).map .integer
  | .subtract => (narrow (left - right) arithmeticOverflow).map .integer
  | .multiply => (narrow (left * right) arithmeticOverflow).map .integer
  | .divide =>
    if right = 0 then typeError "division by zero"
    else (narrow (left.tdiv right) arithmeticOverflow).map .integer
  | .modulo =>
    if right = 0 then typeError "division by zero"
    -- The remainder is zero here, and `checked_rem` refuses it all the same.
    else if left = -2 ^ 63 ∧ right = -1 then typeError arithmeticOverflow
    else .ok (.integer (left.tmod right))
  | _ => typeError arithmeticOverflow

def floatBinary (arithmetic : Arithmetic) (op : BinaryOp) (left right : F64) : QueryResult Value :=
  match op with
  | .add => .ok (.float (arithmetic.add left right))
  | .subtract => .ok (.float (arithmetic.sub left right))
  | .multiply => .ok (.float (arithmetic.mul left right))
  | .divide => .ok (.float (arithmetic.div left right))
  | .modulo => .ok (.float (arithmetic.rem left right))
  | .power => .ok (.float (arithmetic.powf left right))
  | .concat => .error (.internal "non-arithmetic operator reached Float evaluation")

/-! ## 4. Operators -/

/-- `numeric_binary` for values of which none is null and none a duration. -/
def plainBinary (arithmetic : Arithmetic) (op : BinaryOp) (left right : Value) :
    QueryResult Value :=
  match left, right with
  | .integer left, .integer right =>
    if op ≠ .power then integerBinary op left right
    else floatBinary arithmetic op (arithmetic.ofInteger left) (arithmetic.ofInteger right)
  | .integer left, .float right => floatBinary arithmetic op (arithmetic.ofInteger left) right
  | .float left, .integer right => floatBinary arithmetic op left (arithmetic.ofInteger right)
  | .float left, .float right => floatBinary arithmetic op left right
  | .string left, .string right =>
    if op = .add ∨ op = .concat then .ok (.string (left ++ right))
    else typeError "arithmetic operator received incompatible values"
  | .list left, .list right =>
    if op = .add ∨ op = .concat then .ok (.list (left ++ right))
    else typeError "arithmetic operator received incompatible values"
  | .list left, right =>
    if op = .add then .ok (.list (left ++ [right]))
    else typeError "arithmetic operator received incompatible values"
  | left, .list right =>
    if op = .add then .ok (.list (left :: right))
    else typeError "arithmetic operator received incompatible values"
  | _, _ => typeError "arithmetic operator received incompatible values"

def numericBinary (arithmetic : Arithmetic) (op : BinaryOp) (left right : Value) :
    QueryResult Value :=
  match left, right with
  | .null, _ => .ok .null
  | _, .null => .ok .null
  | left, right =>
    match evaluateTemporalArithmetic arithmetic op left right with
    | some result => result
    | none => plainBinary arithmetic op left right

/-- `evaluate_binary_impl`: texts and lists are joined before anything else is looked at. -/
def evaluateBinary (arithmetic : Arithmetic) (op : BinaryOp) (left right : Value) :
    QueryResult Value :=
  match op, left, right with
  | .add, .string left, .string right => .ok (.string (left ++ right))
  | .concat, .string left, .string right => .ok (.string (left ++ right))
  | .add, .list left, .list right => .ok (.list (left ++ right))
  | .concat, .list left, .list right => .ok (.list (left ++ right))
  | .add, .list left, right => .ok (.list (left ++ [right]))
  | .add, left, .list right => .ok (.list (left :: right))
  | op, left, right => numericBinary arithmetic op left right

def evaluateUnary (arithmetic : Arithmetic) : UnaryOp → Value → QueryResult Value
  | .positive, .integer value => .ok (.integer value)
  | .positive, .float value => .ok (.float value)
  | .negative, .integer value => (narrow (-value) "INTEGER64 negation overflow").map .integer
  | .negative, .float value => .ok (.float (arithmetic.neg value))
  | _, _ => typeError "unary operator received an incompatible value"

/-! ## 5. Evaluation -/

/-- A row and the parameters of a query: what is missing is null. -/
structure Env where
  row : Text → Value
  params : Text → Value

mutual

def evaluate (arithmetic : Arithmetic) (env : Env) : Expr → QueryResult Value
  | .literal value => .ok value
  | .variable name => .ok (env.row name)
  | .parameter name => .ok (env.params name)
  | .list items => do
    let values ← evaluateAll arithmetic env items
    return .list values
  | .unary op operand => do
    let value ← evaluate arithmetic env operand
    evaluateUnary arithmetic op value
  | .binary op left right => do
    let left ← evaluate arithmetic env left
    let right ← evaluate arithmetic env right
    evaluateBinary arithmetic op left right

/-- `evaluate_list`. -/
def evaluateAll (arithmetic : Arithmetic) (env : Env) : List Expr → QueryResult (List Value)
  | [] => .ok []
  | item :: rest => do
    let value ← evaluate arithmetic env item
    let values ← evaluateAll arithmetic env rest
    return value :: values

end

/-- The value of an expression: it is compiled, then evaluated. -/
def run (arithmetic : Arithmetic) (env : Env) (expression : Ast) : QueryResult Value := do
  let compiled ← compile expression
  evaluate arithmetic env compiled

end Lithograph.Query.Expression
