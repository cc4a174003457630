/-
  File:      Lithograph/Query/Path/Execute.lean
  Subject:   Matching path patterns against a graph (`query/completeness/path.rs`,
             `query/completeness/path/selector.rs`).

  A state carries the bindings, the current node and the path behind it. A repeated relationship and
  a quantified group are a `walk` over a frontier of states, of which an observer waits for some
  rounds. `PathContext` holds the facts of the graph and stands for graph views, name expressions
  and the evaluator. Left out: memory, metrics, cancellation and the pages of the start nodes.
-/
import Lithograph.Library.Frontier
import Lithograph.Query.Path.Pattern
import Lithograph.Storage.Snapshot

namespace Lithograph.Query.Path

open Std Library Storage

inductive BindingValue (V : Type) where
  | node (id : NodeId)
  | relationship (record : RelationshipRecord)
  | path (nodes : List NodeId) (relationships : List RelationshipRecord)
  | scalar (value : V)
  | null
  deriving DecidableEq, Repr

structure BindingRow (V : Type) where
  values : ExtTreeMap Text (BindingValue V) := ∅
  usedRelationships : ExtTreeMap RelationshipId Unit := ∅
  order : List Text := []

structure PathState (V : Type) where
  row : BindingRow V := {}
  current : Option NodeId := none
  nodes : List NodeId := []
  relationships : List RelationshipRecord := []

/-- Why a match stops before its end. -/
inductive MatchStop where
  | failed (error : QueryError)
  | running
  deriving DecidableEq, Repr

/-- A computation inside a match. -/
abbrev MatchResult (α : Type) := Except MatchStop α

/-- `?` on a query result. -/
def ofQuery {α : Type} : QueryResult α → MatchResult α
  | .ok a => .ok a
  | .error e => .error (.failed e)

/-- `PathContext`: the graph of the snapshot, the match mode and what other modules answer. -/
structure PathContext (A X V : Type) where
  graph : GraphState
  matchMode : MatchModeKind
  unlimited : Nat
  rounds : Nat
  visibleNode : NodeId → QueryResult Bool
  visibleRelationship : RelationshipRecord → QueryResult Bool
  simpleStaticLabel : A → Option Text
  findLabel : Text → Option LabelId
  labelName : LabelId → Option Text
  relationshipTypeName : RelationshipTypeId → Option Text
  nameExpressionMatches : A → List Text → BindingRow V → QueryResult Bool
  evaluateMap : X → BindingRow V → QueryResult (List (Text × V))
  denies : Text → Bool
  findPropertyKey : Text → Option PropertyKeyId
  borrowedProperty : PropertyValue → QueryResult V
  cypherEquals : V → V → QueryResult (Option Bool)
  predicate : X → BindingRow V → QueryResult Bool
  bindingValue : BindingValue V → QueryResult V
  list : List V → V

variable {A X V : Type}

/-! ## 1. Rows -/

namespace BindingRow

def insert (row : BindingRow V) (name : Text) (value : BindingValue V) : BindingRow V :=
  { row with
    values := row.values.insert name value
    order := if row.values.contains name then row.order else row.order ++ [name] }

/-- A name leaves the row: `values.remove(name)`, `order.retain(..)`. -/
def remove (row : BindingRow V) (name : Text) : BindingRow V :=
  { row with
    values := row.values.erase name
    order := row.order.filter (· ≠ name) }

/-- `bind_node`: `none` where the node is not the one the name is bound to. -/
def bindNode (row : BindingRow V) (name : Option Text) (id : NodeId) :
    MatchResult (Option (BindingRow V)) :=
  match name with
  | none => .ok (some row)
  | some name =>
    match row.values[name]? with
    | some (.node existing) => .ok (if existing = id then some row else none)
    | some .null => .ok none
    | some _ => .error (.failed ⟨.semantic,
        "variable " ++ String.ofList name ++ " is not a Node binding"⟩)
    | none => .ok (some (row.insert name (.node id)))

def bindRelationship (row : BindingRow V) (name : Option Text) (record : RelationshipRecord) :
    MatchResult (Option (BindingRow V)) :=
  match name with
  | none => .ok (some row)
  | some name =>
    match row.values[name]? with
    | some (.relationship existing) => .ok (if existing.id = record.id then some row else none)
    | some .null => .ok none
    | some _ => .error (.failed ⟨.semantic,
        "variable " ++ String.ofList name ++ " is not a Relationship binding"⟩)
    | none => .ok (some (row.insert name (.relationship record)))

def bindPath [DecidableEq V] (row : BindingRow V) (name : Text) (nodes : List NodeId)
    (relationships : List RelationshipRecord) : MatchResult (BindingRow V) :=
  match row.values[name]? with
  | some existing =>
    if existing = .path nodes relationships then .ok row
    else .error (.failed ⟨.semantic,
      "path variable " ++ String.ofList name ++ " conflicts with an existing binding"⟩)
  | none => .ok (row.insert name (.path nodes relationships))

end BindingRow

/-! ## 2. Predicates -/

/-- One entry of the property map of a pattern. -/
def propertyMatches (context : PathContext A X V) (owner : OwnerKind) (ownerId : Int)
    (name : Text) (expected : V) : QueryResult Bool :=
  if context.denies name then .ok false
  else
    match context.findPropertyKey name with
    | none => .ok false
    | some key =>
      match context.graph.properties[(⟨owner, ownerId, key⟩ : PropertySlot)]? with
      | none => .ok false
      | some actual => do
        let actual ← context.borrowedProperty actual
        let equal ← context.cypherEquals actual expected
        pure (equal == some true)

/-- The entries in order, up to the first that does not match. -/
def allPropertiesMatch (context : PathContext A X V) (owner : OwnerKind) (ownerId : Int) :
    List (Text × V) → QueryResult Bool
  | [] => .ok true
  | (name, expected) :: rest => do
    let equal ← propertyMatches context owner ownerId name expected
    if equal then allPropertiesMatch context owner ownerId rest else pure false

def propertiesMatch (context : PathContext A X V) (row : BindingRow V) (expression : X)
    (owner : OwnerKind) (ownerId : Int) : QueryResult Bool := do
  let expected ← context.evaluateMap expression row
  allPropertiesMatch context owner ownerId expected

def predicateMatches (context : PathContext A X V) (predicate : Option X) (row : BindingRow V) :
    QueryResult Bool :=
  match predicate with
  | none => .ok true
  | some predicate => context.predicate predicate row

def optionalPropertiesMatch (context : PathContext A X V) (row : BindingRow V)
    (properties : Option X) (owner : OwnerKind) (ownerId : Int) : QueryResult Bool :=
  match properties with
  | none => .ok true
  | some expression => propertiesMatch context row expression owner ownerId

/-- The names of the labels of a node. -/
def labelNames (context : PathContext A X V) (id : NodeId) : List Text :=
  (context.graph.labels.toList.filter (·.1.1 = id)).filterMap fun entry =>
    context.labelName entry.1.2

def labelsMatch (context : PathContext A X V) (labels : Option A) (row : BindingRow V)
    (id : NodeId) : QueryResult Bool :=
  match labels with
  | none => .ok true
  | some labels => context.nameExpressionMatches labels (labelNames context id) row

def typesMatch (context : PathContext A X V) (types : Option A) (row : BindingRow V)
    (record : RelationshipRecord) : QueryResult Bool :=
  match types with
  | none => .ok true
  | some types =>
    match context.relationshipTypeName record.typeId with
    | none => .error (.internal "Relationship Type dictionary entry is missing")
    | some name => context.nameExpressionMatches types [name] row

/-- Three checks one after the other, up to the first that fails. -/
def allOf (first second third : QueryResult Bool) : QueryResult Bool := do
  let one ← first
  let two ← if one then second else pure false
  if two then third else pure false

def nodePredicatesMatch (context : PathContext A X V) (spec : NodePattern A X)
    (row : BindingRow V) (id : NodeId) : QueryResult Bool :=
  allOf (labelsMatch context spec.labels row id)
    (optionalPropertiesMatch context row spec.properties .node id)
    (predicateMatches context spec.predicate row)

def relationshipPredicatesMatch (context : PathContext A X V) (spec : RelationshipPattern A X)
    (row : BindingRow V) (record : RelationshipRecord) : QueryResult Bool :=
  allOf (typesMatch context spec.types row record)
    (optionalPropertiesMatch context row spec.properties .relationship record.id)
    (predicateMatches context spec.predicate row)

/-! ## 3. Nodes -/

/-- The state at the node: the start of the path, or the node the path has reached. -/
def PathState.arrive (state : PathState V) (row : BindingRow V) (id : NodeId) :
    Option (PathState V) :=
  match state.current with
  | none => some { state with row := row, current := some id, nodes := state.nodes ++ [id] }
  | some current => if current = id then some { state with row := row } else none

def matchNode (context : PathContext A X V) (spec : NodePattern A X) (state : PathState V)
    (id : NodeId) : MatchResult (Option (PathState V)) := do
  let visible ← ofQuery (context.visibleNode id)
  if visible then
    let bound ← state.row.bindNode spec.var id
    match bound with
    | none => pure none
    | some row =>
      let fits ← ofQuery (nodePredicatesMatch context spec row id)
      if fits then pure (state.arrive row id) else pure none
  else pure none

/-- The ids of a node scan, in ascending order. -/
def scanNodes (context : PathContext A X V) (label : Option LabelId) : List NodeId :=
  context.graph.nodes.keys.filter fun id =>
    match label with
    | none => true
    | some label => context.graph.labels.contains (id, label)

/-- `candidate_start_nodes`: by the one label of the pattern where it has exactly one. -/
def candidateStartNodes (context : PathContext A X V) (spec : NodePattern A X) : List NodeId :=
  match spec.labels.bind context.simpleStaticLabel with
  | none => scanNodes context none
  | some name =>
    match context.findLabel name with
    | none => []
    | some label => scanNodes context (some label)

/-- The candidates in order, each tried on the state. -/
def matchCandidates (context : PathContext A X V) (spec : NodePattern A X) (state : PathState V) :
    List NodeId → MatchResult (List (PathState V))
  | [] => .ok []
  | id :: rest => do
    let matched ← matchNode context spec state id
    let others ← matchCandidates context spec state rest
    pure (matched.toList ++ others)

def matchStartNode (context : PathContext A X V) (spec : NodePattern A X) (state : PathState V) :
    MatchResult (List (PathState V)) :=
  match state.current with
  | some current => (matchNode context spec state current).map Option.toList
  | none =>
    match spec.var.bind fun name => (state.row.values[name]?).map (name, ·) with
    | some (_, .node id) => (matchNode context spec state id).map Option.toList
    | some (_, .null) => .ok []
    | some (name, _) => .error (.failed ⟨.semantic,
        "variable " ++ String.ofList name ++ " is not a Node binding"⟩)
    | none => matchCandidates context spec state (candidateStartNodes context spec)

/-! ## 4. Relationships -/

/-- Whether the relationship leaves the node in the direction of the pattern. -/
def Direction.leaves (direction : Direction) (current : NodeId) (record : RelationshipRecord) :
    Bool :=
  match direction with
  | .outgoing => record.source = current
  | .incoming => record.target = current
  | .undirected => record.source = current || record.target = current

/-- `relationship_candidates`, in ascending order of ids. -/
def relationshipCandidates (context : PathContext A X V) (current : NodeId)
    (direction : Direction) : List RelationshipRecord :=
  (context.graph.relationships.toList.map Prod.snd).filter (direction.leaves current)

/-- The node at the other end. -/
def Direction.next (direction : Direction) (current : NodeId) (record : RelationshipRecord) :
    NodeId :=
  match direction with
  | .outgoing => record.target
  | .incoming => record.source
  | .undirected => if record.source = current then record.target else record.source

def candidateNextNode (context : PathContext A X V) (mode : PathModeKind)
    (relationship : RelationshipPattern A X) (state : PathState V) (current : NodeId)
    (record : RelationshipRecord) : MatchResult (Option NodeId) := do
  let visible ← ofQuery (context.visibleRelationship record)
  let reused := context.matchMode = .differentRelationships ∧
    state.row.usedRelationships.contains record.id = true
  let repeated := mode = .trail ∧ record.id ∈ state.relationships.map (·.id)
  let next := relationship.direction.next current record
  if visible = false ∨ reused ∨ repeated ∨ (mode = .acyclic ∧ next ∈ state.nodes) then pure none
  else pure (some next)

/-- The state after one step over a relationship. -/
def PathState.advance (state : PathState V) (row : BindingRow V) (record : RelationshipRecord)
    (next : NodeId) : PathState V where
  row := { row with usedRelationships := row.usedRelationships.insert record.id () }
  current := some next
  nodes := state.nodes ++ [next]
  relationships := state.relationships ++ [record]

def expandCandidate (context : PathContext A X V) (relationship : RelationshipPattern A X)
    (state : PathState V) (record : RelationshipRecord) (next : NodeId) :
    MatchResult (Option (PathState V)) := do
  let bound ← state.row.bindRelationship relationship.var record
  match bound with
  | none => pure none
  | some row =>
    let fits ← ofQuery (relationshipPredicatesMatch context relationship row record)
    if fits then pure (some (state.advance row record next)) else pure none

/-- One candidate: the node it leads to, then the state there. -/
def tryCandidate (context : PathContext A X V) (mode : PathModeKind)
    (relationship : RelationshipPattern A X) (state : PathState V) (current : NodeId)
    (record : RelationshipRecord) : MatchResult (Option (PathState V)) := do
  let next ← candidateNextNode context mode relationship state current record
  match next with
  | none => pure none
  | some next => expandCandidate context relationship state record next

def tryCandidates (context : PathContext A X V) (mode : PathModeKind)
    (relationship : RelationshipPattern A X) (state : PathState V) (current : NodeId) :
    List RelationshipRecord → MatchResult (List (PathState V))
  | [] => .ok []
  | record :: rest => do
    let expanded ← tryCandidate context mode relationship state current record
    let others ← tryCandidates context mode relationship state current rest
    pure (expanded.toList ++ others)

def expandOne (context : PathContext A X V) (mode : PathModeKind)
    (relationship : RelationshipPattern A X) (state : PathState V) :
    MatchResult (List (PathState V)) :=
  match state.current with
  | none => .error (.failed (.internal "Relationship expansion has no current Node"))
  | some current =>
    tryCandidates context mode relationship state current
      (relationshipCandidates context current relationship.direction)

/-! ## 5. Repetition -/

def effectiveMaximum (context : PathContext A X V) (bounds : Bounds) : MatchResult Nat :=
  match bounds.maximum with
  | some maximum => .ok maximum
  | none =>
    match context.matchMode with
    | .differentRelationships => .ok context.unlimited
    | .repeatableElements => .error (.failed ⟨.semantic,
        "REPEATABLE ELEMENTS requires an upper bound on every quantified path"⟩)

def materializeGroupValues (context : PathContext A X V) (values : List (BindingValue V)) :
    MatchResult V := do
  let converted ← values.mapM fun value => ofQuery (context.bindingValue value)
  pure (context.list converted)

def bindRepeatedRelationshipValues (context : PathContext A X V) (state : PathState V)
    (name : Text) (values : List (BindingValue V)) (prebound : Option (BindingValue V)) :
    MatchResult (Option (PathState V)) := do
  let value ← materializeGroupValues context values
  match prebound.or (state.row.values[name]?) with
  | some (.scalar existing) =>
    let equal ← ofQuery (context.cypherEquals existing value)
    if equal = some true then
      pure (some { state with row := state.row.insert name (.scalar value) })
    else pure none
  | some .null => pure none
  | some _ => .error (.failed ⟨.type,
      "variable " ++ String.ofList name ++ " is not a Relationship-list binding"⟩)
  | none => pure (some { state with row := state.row.insert name (.scalar value) })

def completeRepeatedState (context : PathContext A X V) (chain : RelationshipChain A X)
    (state : PathState V) (collected : List (BindingValue V))
    (prebound : Option (BindingValue V)) (endNode : NodeId) :
    MatchResult (Option (PathState V)) := do
  let matched ← matchNode context chain.endNode state endNode
  match matched, chain.relationship.var with
  | none, _ => pure none
  | some matched, none => pure (some matched)
  | some matched, some name =>
    bindRepeatedRelationshipValues context matched name collected prebound

/-- A name leaves the row and its value joins those collected. -/
def PathState.collect (state : PathState V) (collected : List (BindingValue V))
    (name : Option Text) : PathState V × List (BindingValue V) :=
  match name with
  | none => (state, collected)
  | some name =>
    match state.row.values[name]? with
    | none => (state, collected)
    | some value => ({ state with row := state.row.remove name }, collected ++ [value])

/-- A name leaves the row of the state. -/
def PathState.clear (state : PathState V) (name : Option Text) : PathState V :=
  match name with
  | none => state
  | some name => { state with row := state.row.remove name }

def advanceRepeatedState (context : PathContext A X V) (mode : PathModeKind)
    (chain : RelationshipChain A X) (state : PathState V) (collected : List (BindingValue V)) :
    MatchResult (List (PathState V × List (BindingValue V))) := do
  let expanded ← expandOne context mode chain.relationship (state.clear chain.relationship.var)
  pure (expanded.map fun next => next.collect collected chain.relationship.var)

/-- `if depth < maximum { next.extend(..) }`. -/
def whileBelow {α : Type} (depth maximum : Nat) (next : MatchResult (List α)) :
    MatchResult (List α) :=
  if depth < maximum then next else .ok []

/-- The visit of `execute_repeated_relationship`. -/
def visitRepeated (context : PathContext A X V) (mode : PathModeKind)
    (chain : RelationshipChain A X) (maximum : Nat) (prebound : Option (BindingValue V))
    (depth : Nat) (item : PathState V × List (BindingValue V)) :
    MatchResult (List (PathState V) × List (PathState V × List (BindingValue V))) :=
  if chain.bounds.minimum ≤ depth then
    match item.1.current with
    | none => .ok ([], [])
    | some endNode => do
      let matched ← completeRepeatedState context chain item.1 item.2 prebound endNode
      let next ← whileBelow depth maximum (advanceRepeatedState context mode chain item.1 item.2)
      pure (matched.toList, next)
  else do
    let next ← whileBelow depth maximum (advanceRepeatedState context mode chain item.1 item.2)
    pure ([], next)

def executeRepeatedRelationship (context : PathContext A X V) (mode : PathModeKind)
    (chain : RelationshipChain A X) (state : PathState V) : MatchResult (List (PathState V)) := do
  let maximum ← effectiveMaximum context chain.bounds
  let prebound := chain.relationship.var.bind fun name => state.row.values[name]?
  walk .running maximum (visitRepeated context mode chain maximum prebound) context.rounds 0
    [(state, [])] []

/-- The end node of one expanded state, matched. -/
def matchEnd (context : PathContext A X V) (endNode : NodePattern A X) (state : PathState V) :
    MatchResult (Option (PathState V)) :=
  match state.current with
  | none => .ok none
  | some id => matchNode context endNode state id

/-- The end nodes of the expanded states, matched. -/
def matchEnds (context : PathContext A X V) (endNode : NodePattern A X) :
    List (PathState V) → MatchResult (List (PathState V))
  | [] => .ok []
  | state :: rest => do
    let matched ← matchEnd context endNode state
    let others ← matchEnds context endNode rest
    pure (matched.toList ++ others)

def executeChain (context : PathContext A X V) (mode : PathModeKind)
    (chain : RelationshipChain A X) (state : PathState V) : MatchResult (List (PathState V)) :=
  if chain.grouped then executeRepeatedRelationship context mode chain state
  else do
    let expanded ← expandOne context mode chain.relationship state
    matchEnds context chain.endNode expanded

/-- Every state replaced by those the step makes of it, in order. -/
def expandStates {α β : Type} (step : α → MatchResult (List β)) : List α → MatchResult (List β)
  | [] => .ok []
  | state :: rest => do
    let expanded ← step state
    let others ← expandStates step rest
    pure (expanded ++ others)

/-- The chains of a simple fragment, one after the other. -/
def executeChains (context : PathContext A X V) (mode : PathModeKind) :
    List (RelationshipChain A X) → List (PathState V) → MatchResult (List (PathState V))
  | [], states => .ok states
  | chain :: rest, states => do
    let expanded ← expandStates (executeChain context mode chain) states
    executeChains context mode rest expanded

def executeSimple (context : PathContext A X V) (mode : PathModeKind) (start : NodePattern A X)
    (chains : List (RelationshipChain A X)) (states : List (PathState V)) :
    MatchResult (List (PathState V)) := do
  let started ← expandStates (matchStartNode context start) states
  executeChains context mode chains started

/-! ## 6. Quantified groups -/

abbrev CollectedBindings (V : Type) := ExtTreeMap Text (List (BindingValue V))

/-- The collected bindings before the first iteration. -/
def emptyCollected (names : List Text) : CollectedBindings V :=
  names.foldl (fun collected name => collected.insert name []) ∅

/-- `bind_group_values`, for one entry of the collected bindings. -/
def bindGroupValues (context : PathContext A X V) (state : PathState V)
    (entry : Text × List (BindingValue V)) : MatchResult (PathState V) := do
  let value ← materializeGroupValues context entry.2
  pure { state with row := state.row.insert entry.1 (.scalar value) }

def completeQuantifiedState (context : PathContext A X V) (state : PathState V)
    (collected : CollectedBindings V) : MatchResult (PathState V) :=
  collected.toList.foldlM (bindGroupValues context) state

/-- `remove_quantified_bindings`. -/
def PathState.removeBindings (state : PathState V) (names : List Text) : PathState V :=
  { state with row := names.foldl BindingRow.remove state.row }

/-- One variable of `collect_quantified_bindings`. -/
def collectBinding (item : BindingRow V × CollectedBindings V) (name : Text) :
    BindingRow V × CollectedBindings V :=
  match item.1.values[name]? with
  | none => (item.1.remove name, item.2)
  | some value => (item.1.remove name, item.2.insert name ((item.2[name]?).getD [] ++ [value]))

def collectQuantifiedBindings (names : List Text) (collected : CollectedBindings V)
    (state : PathState V) : PathState V × CollectedBindings V :=
  let item := names.foldl collectBinding (state.row, collected)
  ({ state with row := item.1 }, item.2)

/-- The states of an iteration whose predicate holds, with what they collect. -/
def closeIteration (context : PathContext A X V) (predicate : Option X) (names : List Text)
    (collected : CollectedBindings V) :
    List (PathState V) → MatchResult (List (PathState V × CollectedBindings V))
  | [] => .ok []
  | state :: rest => do
    let fits ← ofQuery (predicateMatches context predicate state.row)
    let others ← closeIteration context predicate names collected rest
    if fits then pure (collectQuantifiedBindings names collected state :: others)
    else pure others

/-- `advance_quantified_state`; `body` executes the fragments of the group. -/
def advanceQuantifiedState (context : PathContext A X V) (predicate : Option X)
    (names : List Text) (body : List (PathState V) → MatchResult (List (PathState V)))
    (state : PathState V) (collected : CollectedBindings V) :
    MatchResult (List (PathState V × CollectedBindings V)) := do
  let expanded ← body [state.removeBindings names]
  closeIteration context predicate names collected expanded

/-- The completed state of an item, once the minimum is reached. -/
def completeDue (context : PathContext A X V) (minimum depth : Nat)
    (item : PathState V × CollectedBindings V) : MatchResult (List (PathState V)) :=
  if minimum ≤ depth then
    (completeQuantifiedState context item.1 item.2).map fun state => [state]
  else .ok []

/-- The visit of `execute_quantified`. -/
def visitQuantified (context : PathContext A X V) (bounds : Bounds) (predicate : Option X)
    (names : List Text) (body : List (PathState V) → MatchResult (List (PathState V)))
    (maximum depth : Nat) (item : PathState V × CollectedBindings V) :
    MatchResult (List (PathState V) × List (PathState V × CollectedBindings V)) := do
  let completed ← completeDue context bounds.minimum depth item
  let next ← whileBelow depth maximum
    (advanceQuantifiedState context predicate names body item.1 item.2)
  pure (completed, next)

def executeQuantified (context : PathContext A X V) (bounds : Bounds) (predicate : Option X)
    (names : List Text) (body : List (PathState V) → MatchResult (List (PathState V)))
    (states : List (PathState V)) : MatchResult (List (PathState V)) := do
  let maximum ← effectiveMaximum context bounds
  walk .running maximum (visitQuantified context bounds predicate names body maximum)
    context.rounds 0 (states.map fun state => (state, emptyCollected names)) []

mutual

/-- One fragment on all the states. -/
def executeFragment (context : PathContext A X V) (mode : PathModeKind) :
    Fragment A X → List (PathState V) → MatchResult (List (PathState V))
  | .simple start chains, states => executeSimple context mode start chains states
  | .quantified fragments bounds predicate, states =>
    executeQuantified context bounds predicate (collectFragmentVariables [] fragments)
      (executeFragments context mode fragments) states

def executeFragments (context : PathContext A X V) (mode : PathModeKind) :
    List (Fragment A X) → List (PathState V) → MatchResult (List (PathState V))
  | [], states => .ok states
  | fragment :: rest, states => do
    let expanded ← executeFragment context mode fragment states
    if expanded.isEmpty then pure [] else executeFragments context mode rest expanded

end

/-! ## 7. Selectors -/

/-- `compare_paths`: by length, then by the ids along the path. -/
def pathsOrdered (left right : PathState V) : Bool :=
  left.relationships.length < right.relationships.length ||
    (left.relationships.length == right.relationships.length &&
      decide (left.relationships.map (·.id) ≤ right.relationships.map (·.id)))

/-- The paths up to `count` different lengths, in order of length. -/
def shortestGroups (count : Nat) (paths : List (PathState V)) : List (PathState V) :=
  let lengths := (paths.map (·.relationships.length)).dedup
  paths.filter fun path => path.relationships.length ∈ lengths.take count

/-- What the selector leaves of the sorted paths between two nodes. -/
def PathSelector.take (selector : PathSelector) (paths : List (PathState V)) : List (PathState V) :=
  match selector.kind with
  | .all => paths
  | .any | .shortestPaths => paths.take selector.count
  | .anyShortest => paths.take 1
  | .allShortest =>
    match paths with
    | [] => []
    | first :: _ => paths.takeWhile (·.relationships.length = first.relationships.length)
  | .shortestGroups => shortestGroups selector.count paths

/-- First and last node of a path. -/
def PathState.ends (state : PathState V) : Option NodeId × Option NodeId :=
  (state.nodes.head?, state.nodes.getLast?)

/-- `apply_selector`: the paths between each pair of ends, sorted and selected. -/
def applySelector (states : List (PathState V)) (selector : PathSelector) : List (PathState V) :=
  if selector.kind = .all then states
  else
    let keys := ((states.map PathState.ends).dedup).mergeSort fun a b => (compare a b).isLE
    keys.flatMap fun key =>
      selector.take ((states.filter (·.ends = key)).mergeSort pathsOrdered)

/-! ## 8. The clause -/

def bindPartPaths [DecidableEq V] (part : PatternPartSpec A X) (states : List (PathState V)) :
    MatchResult (List (PathState V)) :=
  match part.pathVariable with
  | none => .ok states
  | some name => states.mapM fun state => do
      let row ← state.row.bindPath name state.nodes state.relationships
      pure { state with row := row }

def executePart [DecidableEq V] (context : PathContext A X V) (part : PatternPartSpec A X)
    (row : BindingRow V) : MatchResult (List (BindingRow V)) := do
  let states ← executeFragments context part.pathMode part.fragments [{ row := row }]
  let states ← bindPartPaths part states
  pure ((applySelector states part.selector).map (·.row))

def executeMatchParts [DecidableEq V] (context : PathContext A X V) :
    List (PatternPartSpec A X) → List (BindingRow V) → MatchResult (List (BindingRow V))
  | [], rows => .ok rows
  | part :: rest, rows => do
    let expanded ← expandStates (executePart context part) rows
    if expanded.isEmpty then pure [] else executeMatchParts context rest expanded

/-- `execute_match`: every input row starts with no relationship used. -/
def executeMatch [DecidableEq V] (context : PathContext A X V) (clause : List (PartAst A X))
    (input : List (BindingRow V)) : MatchResult (List (BindingRow V)) := do
  let parts ← ofQuery (clause.mapM parsePart)
  expandStates (fun row => executeMatchParts context parts [{ row with usedRelationships := ∅ }])
    input

end Lithograph.Query.Path
