/-
  File:      Lithograph/Query/Path/Pattern.lean
  Subject:   Path patterns: the form the grammar accepts and the fragments they are lowered to
             (`query/completeness/path.rs`, `query/completeness/path/parsing.rs`).

  Name expressions and expressions stay abstract. The bounds of a quantifier are numbers here.
-/
import Lithograph.Query.Error

namespace Lithograph.Query.Path

open Storage

/-- `usize::MAX`. -/
def usizeMax : Nat := 2 ^ 64 - 1

inductive Direction where
  | outgoing | incoming | undirected
  deriving DecidableEq, Repr

/-- `Bounds`: how often a part repeats; no maximum means without limit. -/
structure Bounds where
  minimum : Nat
  maximum : Option Nat
  deriving DecidableEq, Repr

inductive PathModeKind where
  | walk | trail | acyclic
  deriving DecidableEq, Repr

inductive MatchModeKind where
  | differentRelationships | repeatableElements
  deriving DecidableEq, Repr

inductive PathSelectorKind where
  | all | any | allShortest | anyShortest | shortestPaths | shortestGroups
  deriving DecidableEq, Repr

structure PathSelector where
  kind : PathSelectorKind
  count : Nat
  deriving DecidableEq, Repr

section Patterns

variable (A X : Type)

structure NodePattern where
  var : Option Text := none
  labels : Option A := none
  properties : Option X := none
  predicate : Option X := none

structure RelationshipPattern where
  var : Option Text := none
  types : Option A := none
  properties : Option X := none
  predicate : Option X := none
  direction : Direction

/-! ## 1. What the grammar accepts -/

/-- `quantifier`: `*`, `+`, `{n}` or `{m,n}` with a bound left out. -/
inductive Quantifier where
  | zeroOrMore
  | oneOrMore
  | fixed (lower : Nat)
  | range (lower upper : Option Nat)
  deriving DecidableEq, Repr

/-- `variable_length`: `*`, `*n` or `*m..n` with a bound left out. -/
inductive VariableLength where
  | star
  | fixed (count : Nat)
  | range (lower upper : Option Nat)
  deriving DecidableEq, Repr

/-- `relationship_chain`. -/
structure ChainAst where
  relationship : RelationshipPattern A X
  variableLength : Option VariableLength := none
  quantifier : Option Quantifier := none
  endNode : NodePattern A X

/-- `path_segment`: a simple path or a parenthesised path with its quantifier. -/
inductive Segment where
  | simple (start : NodePattern A X) (chains : List (ChainAst A X))
  | grouped (element : List Segment) (predicate : Option X) (quantifier : Quantifier)

/-- `pattern_part`. -/
structure PartAst where
  pathVariable : Option Text := none
  selector : PathSelector := ⟨.all, usizeMax⟩
  pathMode : PathModeKind := .walk
  element : List (Segment A X)

/-! ## 2. Fragments -/

/-- `RelationshipChain`; `grouped` is `grouped_relationship`, a chain that repeats. -/
structure RelationshipChain where
  relationship : RelationshipPattern A X
  endNode : NodePattern A X
  bounds : Bounds
  grouped : Bool

inductive Fragment where
  | simple (start : NodePattern A X) (chains : List (RelationshipChain A X))
  | quantified (fragments : List Fragment) (bounds : Bounds) (predicate : Option X)

structure PatternPartSpec where
  pathVariable : Option Text
  selector : PathSelector
  pathMode : PathModeKind
  fragments : List (Fragment A X)

end Patterns

variable {A X : Type}

/-! ## 3. Lowering -/

def parseBound (n : Nat) : QueryResult Nat :=
  if n ≤ usizeMax then .ok n else .error ⟨.semantic, "invalid path quantifier bound"⟩

def parseOptionalBound : Option Nat → QueryResult (Option Nat)
  | none => .ok none
  | some n => (parseBound n).map some

def validateBounds (bounds : Bounds) : QueryResult Bounds := do
  refuseWhen (bounds.maximum.any (· < bounds.minimum))
    ⟨.semantic, "path quantifier upper bound is smaller than its lower bound"⟩
  pure bounds

def parseQuantifier : Quantifier → QueryResult Bounds
  | .zeroOrMore => validateBounds ⟨0, none⟩
  | .oneOrMore => validateBounds ⟨1, none⟩
  | .fixed lower => do
    let lower ← parseBound lower
    validateBounds ⟨lower, some lower⟩
  | .range lower upper => do
    let lower ← parseOptionalBound lower
    let upper ← parseOptionalBound upper
    validateBounds ⟨lower.getD 0, upper⟩

/-- `parse_variable_length`: a lower bound left out is one, and nothing compares the two. -/
def parseVariableLength : VariableLength → QueryResult Bounds
  | .star => .ok ⟨1, none⟩
  | .fixed count => do
    let count ← parseBound count
    pure ⟨count, some count⟩
  | .range lower upper => do
    let lower ← parseOptionalBound lower
    let upper ← parseOptionalBound upper
    pure ⟨lower.getD 1, upper⟩

/-- The bounds of a chain: its quantifier, its variable length, or exactly once. -/
def parseChainBounds (chain : ChainAst A X) : QueryResult Bounds :=
  match chain.quantifier, chain.variableLength with
  | some _, some _ => .error ⟨.semantic,
      "Relationship cannot use both a variable-length marker and a quantifier"⟩
  | some quantifier, none => parseQuantifier quantifier
  | none, some length => parseVariableLength length
  | none, none => .ok ⟨1, some 1⟩

def parseRelationshipChain (chain : ChainAst A X) : QueryResult (RelationshipChain A X) := do
  let bounds ← parseChainBounds chain
  pure { relationship := chain.relationship
         endNode := chain.endNode
         bounds := bounds
         grouped := chain.quantifier.isSome || chain.variableLength.isSome }

mutual

/-- `parse_pattern_segment` for a simple segment, `parse_quantified` for a grouped one. -/
def parseSegment : Segment A X → QueryResult (Fragment A X)
  | .simple start chains => do
    let chains ← chains.mapM parseRelationshipChain
    pure (.simple start chains)
  | .grouped element predicate quantifier => do
    let fragments ← parsePatternElement element
    let bounds ← parseQuantifier quantifier
    pure (.quantified fragments bounds predicate)

def parsePatternElement : List (Segment A X) → QueryResult (List (Fragment A X))
  | [] => .ok []
  | segment :: rest => do
    let fragment ← parseSegment segment
    let fragments ← parsePatternElement rest
    pure (fragment :: fragments)

end

def parsePart (part : PartAst A X) : QueryResult (PatternPartSpec A X) := do
  refuseWhen (part.selector.count == 0) ⟨.semantic, "path selector count must be positive"⟩
  let fragments ← parsePatternElement part.element
  refuseWhen fragments.isEmpty ⟨.semantic, "path pattern has no executable fragment"⟩
  pure ⟨part.pathVariable, part.selector, part.pathMode, fragments⟩

/-! ## 4. The variables of fragments -/

/-- `append_optional`, `append_unique`. -/
def appendOptional (output : List Text) : Option Text → List Text
  | none => output
  | some name => if output.contains name then output else output ++ [name]

def RelationshipChain.variables (output : List Text) (chain : RelationshipChain A X) : List Text :=
  appendOptional (appendOptional output chain.relationship.var) chain.endNode.var

mutual

/-- The variables one fragment binds, appended to those already there. -/
def Fragment.collectVariables (output : List Text) : Fragment A X → List Text
  | .simple start chains =>
    chains.foldl RelationshipChain.variables (appendOptional output start.var)
  | .quantified fragments _ _ =>
    (collectFragmentVariables [] fragments).foldl (fun out name => appendOptional out (some name))
      output

def collectFragmentVariables (output : List Text) : List (Fragment A X) → List Text
  | [] => output
  | fragment :: rest => collectFragmentVariables (fragment.collectVariables output) rest

end

/-! ## 5. The relationships a match must use -/

/-- At least how many relationships one chain steps over. -/
def RelationshipChain.minimumRelationships (chain : RelationshipChain A X) : Nat :=
  if chain.grouped then chain.bounds.minimum else 1

mutual

/-- At least how many relationships a match of the fragment steps over. -/
def Fragment.minimumRelationships : Fragment A X → Nat
  | .simple _ chains => (chains.map RelationshipChain.minimumRelationships).sum
  | .quantified fragments bounds _ => bounds.minimum * minimumOf fragments

def minimumOf : List (Fragment A X) → Nat
  | [] => 0
  | fragment :: rest => fragment.minimumRelationships + minimumOf rest

end

mutual

/-- **Every repetition without a limit uses a relationship**: the body of every quantified group
    without a maximum, at any depth, needs at least one. A group of maximum zero is not entered,
    whatever its body is. -/
def Fragment.Consuming : Fragment A X → Prop
  | .simple _ _ => True
  | .quantified fragments bounds _ =>
    bounds.maximum = some 0 ∨
      (bounds.maximum = none → 1 ≤ minimumOf fragments) ∧ ConsumingAll fragments

def ConsumingAll : List (Fragment A X) → Prop
  | [] => True
  | fragment :: rest => fragment.Consuming ∧ ConsumingAll rest

end

/-- The largest limit the bounds set. -/
def Bounds.limit (bounds : Bounds) : Nat := bounds.maximum.getD 0

mutual

/-- The largest limit of a repetition in the fragment. -/
def Fragment.largestLimit : Fragment A X → Nat
  | .simple _ chains => chains.foldr (fun chain n => max chain.bounds.limit n) 0
  | .quantified fragments bounds _ => max bounds.limit (largestLimitOf fragments)

def largestLimitOf : List (Fragment A X) → Nat
  | [] => 0
  | fragment :: rest => max fragment.largestLimit (largestLimitOf rest)

end

end Lithograph.Query.Path
