/-
  File:      Lithograph/Query/Path/Idle.lean
  Subject:   Repetitions that use no relationship, and which `MATCH` clauses come to their end.

  * `executeMatch_terminates`: which clauses come to their end on every graph.
-/
import Lithograph.Query.Path.Termination
import Mathlib.Data.List.Dedup

namespace Lithograph.Query.Path

open Std Library Storage

variable {A X : Type}

/-! ## 1. Patterns that stall -/

/-- The maximum, where there is one, is not below the minimum. -/
def Bounds.Valid (bounds : Bounds) : Prop := ∀ m, bounds.maximum = some m → bounds.minimum ≤ m

mutual

/-- The bounds of every group are valid, as the parser leaves them. -/
def Fragment.Valid : Fragment A X → Prop
  | .simple _ _ => True
  | .quantified fragments bounds _ => bounds.Valid ∧ ValidAll fragments

def ValidAll : List (Fragment A X) → Prop
  | [] => True
  | fragment :: rest => fragment.Valid ∧ ValidAll rest

end

mutual

/-- A group without a limit whose body uses no relationship is reached before any relationship
    is. -/
def Fragment.Stalls : Fragment A X → Prop
  | .simple _ _ => False
  | .quantified fragments bounds _ =>
    (bounds.maximum = none ∧ minimumOf fragments = 0) ∨
      (bounds.maximum ≠ some 0 ∧ StallsAll fragments)

def StallsAll : List (Fragment A X) → Prop
  | [] => False
  | fragment :: rest => fragment.Stalls ∨ (fragment.minimumRelationships = 0 ∧ StallsAll rest)

end

/-- The variables bound to single nodes at the level of a fragment. -/
def Fragment.nodeNames : Fragment A X → List Text
  | .simple start chains => start.var.toList ++ chains.flatMap fun chain => chain.endNode.var.toList
  | .quantified _ _ _ => []

/-- The variables bound to lists at the level of a fragment: a repeated relationship, and whatever
    the body of a group binds. -/
def Fragment.listNames : Fragment A X → List Text
  | .simple _ chains => chains.flatMap fun chain =>
      if chain.grouped then chain.relationship.var.toList else []
  | .quantified fragments _ _ => collectFragmentVariables [] fragments

def nodeNamesOf (fragments : List (Fragment A X)) : List Text :=
  fragments.flatMap Fragment.nodeNames

def listNamesOf (fragments : List (Fragment A X)) : List Text :=
  fragments.flatMap Fragment.listNames

mutual

/-- At no level does one name stand for a node and for a list. -/
def Fragment.Scoped : Fragment A X → Prop
  | .simple _ _ => True
  | .quantified fragments _ _ =>
    (∀ x ∈ nodeNamesOf fragments, x ∉ listNamesOf fragments) ∧ ScopedAll fragments

def ScopedAll : List (Fragment A X) → Prop
  | [] => True
  | fragment :: rest => fragment.Scoped ∧ ScopedAll rest

end

/-! ## 2. The variables of a body -/

variable {x : Text}

theorem mem_appendOptional {output : List Text} {name : Option Text} :
    x ∈ appendOptional output name ↔ x ∈ output ∨ x ∈ name.toList := by
  unfold appendOptional
  cases name with
  | none => simp
  | some name =>
    dsimp only
    split
    · rename_i hmem
      have hname : name ∈ output := by simpa using hmem
      simp only [Option.toList_some, List.mem_singleton]
      refine ⟨.inl, ?_⟩
      rintro (h | rfl)
      · exact h
      · exact hname
    · simp

theorem mem_foldl_variables :
    ∀ {chains : List (RelationshipChain A X)} {output : List Text},
      x ∈ chains.foldl RelationshipChain.variables output ↔
        x ∈ output ∨ ∃ chain ∈ chains, x ∈ chain.relationship.var.toList ∨
          x ∈ chain.endNode.var.toList
  | [], output => by simp
  | chain :: rest, output => by
    rw [List.foldl_cons, mem_foldl_variables]
    unfold RelationshipChain.variables
    simp only [mem_appendOptional, List.mem_cons, exists_eq_or_imp, or_assoc]

theorem mem_foldl_append :
    ∀ {names output : List Text},
      x ∈ names.foldl (fun out name => appendOptional out (some name)) output ↔
        x ∈ output ∨ x ∈ names
  | [], output => by simp
  | name :: rest, output => by
    rw [List.foldl_cons, mem_foldl_append]
    simp only [mem_appendOptional, Option.toList_some, List.mem_cons, List.not_mem_nil, or_false,
      or_assoc]

theorem mem_collectVariables (fragment : Fragment A X) {output : List Text}
    (h : x ∈ output ∨ x ∈ fragment.nodeNames ∨ x ∈ fragment.listNames) :
    x ∈ fragment.collectVariables output := by
  cases fragment with
  | simple start chains =>
    unfold Fragment.collectVariables
    simp only [Fragment.nodeNames, Fragment.listNames, List.mem_append, List.mem_flatMap] at h
    rw [mem_foldl_variables, mem_appendOptional]
    rcases h with h | (h | ⟨chain, hc, h⟩) | ⟨chain, hc, h⟩
    · exact .inl (.inl h)
    · exact .inl (.inr h)
    · exact .inr ⟨chain, hc, .inr h⟩
    · split at h
      · exact .inr ⟨chain, hc, .inl h⟩
      · cases h
  | quantified fragments bounds predicate =>
    unfold Fragment.collectVariables
    rw [mem_foldl_append]
    rcases h with h | h | h
    · exact .inl h
    · cases h
    · exact .inr h

theorem mem_collectFragmentVariables :
    ∀ {fragments : List (Fragment A X)} {output : List Text} {x : Text},
      x ∈ output ∨ x ∈ nodeNamesOf fragments ∨ x ∈ listNamesOf fragments →
      x ∈ collectFragmentVariables output fragments
  | [], output, x, h => by
    unfold collectFragmentVariables
    simpa [nodeNamesOf, listNamesOf] using h
  | fragment :: rest, output, x, h => by
    unfold collectFragmentVariables
    refine mem_collectFragmentVariables ?_
    simp only [nodeNamesOf, listNamesOf, List.flatMap_cons, List.mem_append] at h
    rcases h with h | (h | h) | (h | h)
    · exact .inl (mem_collectVariables fragment (.inl h))
    · exact .inl (mem_collectVariables fragment (.inr (.inl h)))
    · exact .inr (.inl h)
    · exact .inl (mem_collectVariables fragment (.inr (.inr h)))
    · exact .inr (.inr h)

/-! ## 3. One node and no relationship -/

/-- The graph of the node 1. -/
def oneNode : GraphState := { nodes := (∅ : ExtTreeMap NodeId Unit).insert 1 () }

/-- A match over that graph in which every predicate holds. -/
def oneNodeContext (A X : Type) (rounds unlimited : Nat) : PathContext A X Unit where
  graph := oneNode
  matchMode := .differentRelationships
  unlimited := unlimited
  rounds := rounds
  visibleNode := fun id => .ok (oneNode.nodes.contains id)
  visibleRelationship := fun _ => .ok true
  simpleStaticLabel := fun _ => none
  findLabel := fun _ => none
  labelName := fun _ => none
  relationshipTypeName := fun _ => none
  nameExpressionMatches := fun _ _ _ => .ok true
  evaluateMap := fun _ _ => .ok []
  denies := fun _ => false
  findPropertyKey := fun _ => none
  borrowedProperty := fun _ => .ok ()
  cypherEquals := fun _ _ => .ok (some true)
  predicate := fun _ _ => .ok true
  bindingValue := fun _ => .ok ()
  list := fun _ => ()

/-- The state is at the node or before it; `nodes` are free or bound to it, `lists` free or bound to
    a list. -/
structure Clean (nodes lists : List Text) (state : PathState Unit) : Prop where
  current : state.current = none ∨ state.current = some 1
  node : ∀ x ∈ nodes, state.row.values[x]? = none ∨ state.row.values[x]? = some (.node 1)
  list : ∀ x ∈ lists, state.row.values[x]? = none ∨ ∃ v, state.row.values[x]? = some (.scalar v)

variable {state : PathState Unit} {states : List (PathState Unit)} {bounds : Bounds}

theorem Clean.insertList {nodes lists : List Text} {name : Text}
    (hclean : Clean nodes lists state) (hdisjoint : ∀ x ∈ nodes, x ∉ lists) (hname : name ∈ lists) :
    Clean nodes lists { state with row := state.row.insert name (.scalar ()) } := by
  refine ⟨hclean.current, fun x hx => ?_, fun x hx => ?_⟩
  · have hne : x ≠ name := fun e => hdisjoint x hx (e ▸ hname)
    simp only [BindingRow.insert, lookup_insert, if_neg hne]
    exact hclean.node x hx
  · simp only [BindingRow.insert, lookup_insert]
    split
    · exact .inr ⟨(), rfl⟩
    · exact hclean.list x hx

/-- A clean state at the node. -/
def CleanAt (nodes lists : List Text) (state : PathState Unit) : Prop :=
  Clean nodes lists state ∧ state.current = some 1

section OneNode

variable (rounds unlimited : Nat) {mode : PathModeKind} {nodes lists : List Text}

theorem nodePredicatesMatch_oneNode (spec : NodePattern A X) (row : BindingRow Unit) (id : NodeId) :
    nodePredicatesMatch (oneNodeContext A X rounds unlimited) spec row id = .ok true := by
  unfold nodePredicatesMatch labelsMatch optionalPropertiesMatch predicateMatches
  cases spec.labels <;> cases spec.properties <;> cases spec.predicate <;> rfl

theorem matchNode_oneNode {spec : NodePattern A X} (hclean : Clean nodes lists state)
    (hdisjoint : ∀ x ∈ nodes, x ∉ lists) (hvar : ∀ x ∈ spec.var, x ∈ nodes) :
    ∃ state', matchNode (oneNodeContext A X rounds unlimited) spec state 1 = .ok (some state') ∧
      CleanAt nodes lists state' := by
  -- binding the name leaves a clean row
  have hbind : ∃ row', state.row.bindNode spec.var 1 = .ok (some row') ∧
      Clean nodes lists { state with row := row' } := by
    unfold BindingRow.bindNode
    cases hv : spec.var with
    | none => exact ⟨state.row, rfl, hclean⟩
    | some name =>
      have hname : name ∈ nodes := hvar name hv
      rcases hclean.node name hname with h | h
      · refine ⟨state.row.insert name (.node 1), by simp only [h], hclean.current,
          fun x hx => ?_, fun x hx => ?_⟩
        · simp only [BindingRow.insert, lookup_insert]
          split
          · exact .inr rfl
          · exact hclean.node x hx
        · have hne : x ≠ name := fun e => hdisjoint name hname (e ▸ hx)
          simp only [BindingRow.insert, lookup_insert, if_neg hne]
          exact hclean.list x hx
      · exact ⟨state.row, by simp only [h, if_true], hclean⟩
  obtain ⟨row', hrow, hclean'⟩ := hbind
  have hvisible : (oneNodeContext A X rounds unlimited).visibleNode 1 = .ok true := by
    simp [oneNodeContext, oneNode]
  unfold matchNode
  simp only [hvisible, ofQuery, bind, Except.bind, if_true, hrow,
    nodePredicatesMatch_oneNode rounds unlimited, pure, Except.pure]
  unfold PathState.arrive
  rcases hclean.current with h | h
  · simp only [h]
    exact ⟨_, rfl, ⟨.inr rfl, hclean'.node, hclean'.list⟩, rfl⟩
  · simp only [h, if_true]
    exact ⟨_, rfl, ⟨.inr rfl, hclean'.node, hclean'.list⟩, rfl⟩

theorem matchStartNode_oneNode {spec : NodePattern A X} (hclean : Clean nodes lists state)
    (hdisjoint : ∀ x ∈ nodes, x ∉ lists) (hvar : ∀ x ∈ spec.var, x ∈ nodes) :
    ∃ state', matchStartNode (oneNodeContext A X rounds unlimited) spec state = .ok [state'] ∧
      CleanAt nodes lists state' := by
  obtain ⟨state', hmatch, hat⟩ :=
    matchNode_oneNode rounds unlimited hclean hdisjoint hvar
  refine ⟨state', ?_, hat⟩
  have hscan : candidateStartNodes (oneNodeContext A X rounds unlimited) spec = [1] := by
    have hlabel :
        spec.labels.bind (oneNodeContext A X rounds unlimited).simpleStaticLabel = none := by
      cases spec.labels <;> rfl
    unfold candidateStartNodes
    rw [hlabel]
    rfl
  have hcandidates : matchCandidates (oneNodeContext A X rounds unlimited) spec state [1] =
      .ok [state'] := by
    simp [matchCandidates, hmatch, bind, Except.bind, pure, Except.pure]
  unfold matchStartNode
  rcases hclean.current with h | h
  · simp only [h]
    cases hv : spec.var with
    | none => simpa [hscan] using hcandidates
    | some name =>
      rcases hclean.node name (hvar name hv) with hn | hn
      · simpa [hn, hscan] using hcandidates
      · simp [hn, hmatch, Except.map]
  · simp [h, hmatch, Except.map]

theorem effectiveMaximum_oneNode (A X : Type) (bounds : Bounds) :
    ∃ maximum, effectiveMaximum (oneNodeContext A X rounds unlimited) bounds = .ok maximum := by
  unfold effectiveMaximum
  cases bounds.maximum with
  | none => exact ⟨unlimited, rfl⟩
  | some maximum => exact ⟨maximum, rfl⟩

theorem expandOne_oneNode (relationship : RelationshipPattern A X) (hat : state.current = some 1) :
    expandOne (oneNodeContext A X rounds unlimited) mode relationship state = .ok [] := by
  unfold expandOne
  rw [hat]
  rfl

theorem bindRepeated_oneNode {name : Text} {prebound : Option (BindingValue Unit)}
    (hat : CleanAt nodes lists state) (hdisjoint : ∀ x ∈ nodes, x ∉ lists) (hname : name ∈ lists)
    (hpre : prebound = none ∨ ∃ v, prebound = some (.scalar v)) :
    ∃ state', bindRepeatedRelationshipValues (oneNodeContext A X rounds unlimited) state name []
        prebound = .ok (some state') ∧ CleanAt nodes lists state' := by
  refine ⟨{ state with row := state.row.insert name (.scalar ()) }, ?_, ?_⟩
  · unfold bindRepeatedRelationshipValues
    rcases hpre with rfl | ⟨v, rfl⟩
    · rcases hat.1.list name hname with h | ⟨v, h⟩
      · simp only [h, Option.none_or]
        rfl
      · simp only [h, Option.none_or]
        rfl
    · rfl
  · exact ⟨hat.1.insertList hdisjoint hname, hat.2⟩

theorem advanceRepeatedState_oneNode (chain : RelationshipChain A X)
    (hat : state.current = some 1) (collected : List (BindingValue Unit)) :
    advanceRepeatedState (oneNodeContext A X rounds unlimited) mode chain state collected =
      .ok [] := by
  have hcleared : (state.clear chain.relationship.var).current = some 1 := by
    unfold PathState.clear
    split <;> exact hat
  unfold advanceRepeatedState
  rw [expandOne_oneNode rounds unlimited _ hcleared]
  rfl

theorem visitRepeated_oneNode {chain : RelationshipChain A X}
    {prebound : Option (BindingValue Unit)} (hat : CleanAt nodes lists state)
    (hdisjoint : ∀ x ∈ nodes, x ∉ lists) (hend : ∀ x ∈ chain.endNode.var, x ∈ nodes)
    (hlist : ∀ x ∈ chain.relationship.var, x ∈ lists ∧
      (prebound = none ∨ ∃ v, prebound = some (.scalar v))) (maximum depth : Nat) :
    ∃ results, visitRepeated (oneNodeContext A X rounds unlimited) mode chain maximum prebound
        depth (state, []) = .ok (results, []) ∧ (∀ t ∈ results, CleanAt nodes lists t) ∧
      (chain.bounds.minimum ≤ depth → results ≠ []) := by
  have hnext : whileBelow depth maximum
      (advanceRepeatedState (oneNodeContext A X rounds unlimited) mode chain state []) = .ok [] := by
    unfold whileBelow
    rw [advanceRepeatedState_oneNode rounds unlimited chain hat.2]
    split <;> rfl
  unfold visitRepeated
  split
  · have hcomplete : ∃ t, completeRepeatedState (oneNodeContext A X rounds unlimited) chain state []
        prebound 1 = .ok (some t) ∧ CleanAt nodes lists t := by
      obtain ⟨matched, hmatch, hatm⟩ :=
        matchNode_oneNode rounds unlimited hat.1 hdisjoint hend
      unfold completeRepeatedState
      rw [hmatch]
      cases hv : chain.relationship.var with
      | none => exact ⟨matched, rfl, hatm⟩
      | some name =>
        obtain ⟨hname, hpre⟩ := hlist name hv
        exact bindRepeated_oneNode rounds unlimited hatm hdisjoint hname hpre
    obtain ⟨t, ht, hatt⟩ := hcomplete
    refine ⟨[t], ?_, fun t' ht' => ?_, fun _ => by simp⟩
    · simp only [hat.2, ht, hnext, bind, Except.bind]
      rfl
    · rcases List.mem_singleton.mp ht' with rfl
      exact hatt
  · rename_i hnot
    refine ⟨[], ?_, fun _ h => absurd h List.not_mem_nil, fun h => absurd h hnot⟩
    simp only [hnext, bind, Except.bind]
    rfl

theorem executeChain_oneNode {chain : RelationshipChain A X} (hat : CleanAt nodes lists state)
    (hdisjoint : ∀ x ∈ nodes, x ∉ lists) (hend : ∀ x ∈ chain.endNode.var, x ∈ nodes)
    (hlist : chain.grouped = true → ∀ x ∈ chain.relationship.var, x ∈ lists) :
    Goes .running (executeChain (oneNodeContext A X rounds unlimited) mode chain state)
      (CleanAt nodes lists) (chain.minimumRelationships = 0) := by
  unfold executeChain RelationshipChain.minimumRelationships
  split
  · rename_i hgrouped
    have hpre : ∀ x ∈ chain.relationship.var, x ∈ lists ∧
        ((chain.relationship.var.bind fun name => state.row.values[name]?) = none ∨
          ∃ v, (chain.relationship.var.bind fun name => state.row.values[name]?) =
            some (.scalar v)) := by
      intro name hv
      have hname := hlist hgrouped name hv
      rw [Option.mem_def.mp hv]
      exact ⟨hname, hat.1.list name hname⟩
    unfold executeRepeatedRelationship
    obtain ⟨maximum, hmax⟩ := effectiveMaximum_oneNode rounds unlimited A X chain.bounds
    simp only [hmax, bind, Except.bind]
    refine Goes.mono (walk_goes (fun item => CleanAt nodes lists item.1 ∧ item.2 = [])
      (CleanAt nodes lists) chain.bounds.minimum False
      (fun depth item hitem => .inr ?_) (Nat.zero_le _)
      (fun item hi => ?_) (fun _ h => absurd h List.not_mem_nil)) (fun _ h => h) (fun h => ?_)
    · obtain ⟨s, collected⟩ := item
      obtain ⟨hs, hc⟩ := hitem
      subst hc
      obtain ⟨results, hr, hall, hdue⟩ :=
        visitRepeated_oneNode rounds unlimited hs hdisjoint hend hpre maximum depth
      exact ⟨(results, []), hr, hall, fun _ h => absurd h List.not_mem_nil, hdue,
        fun h => h.elim⟩
    · rcases List.mem_singleton.mp hi with rfl
      exact ⟨hat, rfl⟩
    · exact .inr ⟨by simp, .inl (Nat.le_of_eq h)⟩
  · rw [expandOne_oneNode rounds unlimited _ hat.2]
    exact .inr ⟨[], rfl, fun _ h => absurd h List.not_mem_nil, fun h => absurd h (by omega)⟩

theorem expandStates_goes {α β : Type} {step : α → MatchResult (List β)} {I : α → Prop}
    {O : β → Prop} {must : Prop} (hstep : ∀ s, I s → Goes .running (step s) O must) :
    ∀ {states : List α}, (∀ s ∈ states, I s) →
      Goes .running (expandStates step states) O (must ∧ states ≠ [])
  | [], _ => .inr ⟨[], rfl, fun _ h => absurd h List.not_mem_nil, fun h => absurd rfl h.2⟩
  | s :: rest, hI => by
    unfold expandStates
    refine (hstep s (hI s (.head _))).bind fun first hfirst hmust => ?_
    refine (expandStates_goes hstep fun s' hs' => hI s' (.tail _ hs')).bind
      fun others hothers _ => ?_
    refine .inr ⟨_, rfl, fun t ht => ?_, fun hm hnil => ?_⟩
    · rcases List.mem_append.mp ht with ht | ht
      · exact hfirst t ht
      · exact hothers t ht
    · exact hmust hm.1 (List.append_eq_nil_iff.mp hnil).1

theorem executeChains_oneNode (hdisjoint : ∀ x ∈ nodes, x ∉ lists) :
    ∀ {chains : List (RelationshipChain A X)} {states : List (PathState Unit)},
      (∀ chain ∈ chains, (∀ x ∈ chain.endNode.var, x ∈ nodes) ∧
        (chain.grouped = true → ∀ x ∈ chain.relationship.var, x ∈ lists)) →
      (∀ s ∈ states, CleanAt nodes lists s) →
      Goes .running (executeChains (oneNodeContext A X rounds unlimited) mode chains states)
        (CleanAt nodes lists)
        ((chains.map RelationshipChain.minimumRelationships).sum = 0 ∧ states ≠ [])
  | [], states, _, hstates => .inr ⟨states, rfl, hstates, fun h => h.2⟩
  | chain :: rest, states, hchains, hstates => by
    obtain ⟨hend, hlist⟩ := hchains chain (.head _)
    unfold executeChains
    refine (expandStates_goes (fun s hs => executeChain_oneNode rounds unlimited hs hdisjoint hend
      hlist) hstates).bind fun expanded hexpanded hmust => ?_
    refine (executeChains_oneNode hdisjoint (fun c hc => hchains c (.tail _ hc))
      hexpanded).mono (fun _ h => h) fun hm => ?_
    rw [List.map_cons, List.sum_cons] at hm
    exact ⟨by omega, hmust ⟨by omega, hm.2⟩⟩

theorem executeSimple_oneNode (hdisjoint : ∀ x ∈ nodes, x ∉ lists) {start : NodePattern A X}
    {chains : List (RelationshipChain A X)}
    (hnodes : ∀ x ∈ (Fragment.simple start chains).nodeNames, x ∈ nodes)
    (hlists : ∀ x ∈ (Fragment.simple start chains).listNames, x ∈ lists)
    (hstates : ∀ s ∈ states, Clean nodes lists s) :
    Goes .running (executeSimple (oneNodeContext A X rounds unlimited) mode start chains states)
      (Clean nodes lists)
      ((chains.map RelationshipChain.minimumRelationships).sum = 0 ∧ states ≠ []) := by
  simp only [Fragment.nodeNames, Fragment.listNames, List.mem_append,
    List.mem_flatMap] at hnodes hlists
  have hstart : ∀ s, Clean nodes lists s → Goes .running
      (matchStartNode (oneNodeContext A X rounds unlimited) start s) (CleanAt nodes lists) True := by
    intro s hs
    obtain ⟨s', hm, hat⟩ := matchStartNode_oneNode rounds unlimited hs hdisjoint
      (fun x hx => hnodes x (.inl (Option.mem_toList.mpr hx)))
    refine .inr ⟨[s'], hm, fun t ht => ?_, fun _ => by simp⟩
    rcases List.mem_singleton.mp ht with rfl
    exact hat
  unfold executeSimple
  refine (expandStates_goes hstart hstates).bind fun started hstarted hmust => ?_
  refine (executeChains_oneNode rounds unlimited hdisjoint (fun chain hc => ⟨fun x hx => ?_,
    fun hg x hx => ?_⟩) hstarted).mono (fun _ h => h.1) fun hm => ⟨hm.1, hmust ⟨trivial, hm.2⟩⟩
  · exact hnodes x (.inr ⟨chain, hc, Option.mem_toList.mpr hx⟩)
  · exact hlists x ⟨chain, hc, by rw [if_pos hg]; exact Option.mem_toList.mpr hx⟩

/-! ## 4. Groups on one node -/

variable {V : Type} {fragments : List (Fragment A X)} {selector : PathSelector}
  {part : PatternPartSpec A X}

theorem foldl_remove_lookup (x : Text) :
    ∀ (names : List Text) (row : BindingRow V),
      (names.foldl BindingRow.remove row).values[x]? = if x ∈ names then none else row.values[x]?
  | [], row => by simp
  | name :: rest, row => by
    rw [List.foldl_cons, foldl_remove_lookup x rest]
    simp only [BindingRow.remove, lookup_erase, List.mem_cons]
    by_cases hx : x = name <;> by_cases hr : x ∈ rest <;> simp [hx, hr]

theorem foldl_collect_row :
    ∀ (names : List Text) (item : BindingRow V × CollectedBindings V),
      (names.foldl collectBinding item).1 = names.foldl BindingRow.remove item.1
  | [], item => rfl
  | name :: rest, item => by
    rw [List.foldl_cons, foldl_collect_row rest, List.foldl_cons]
    unfold collectBinding
    split <;> rfl

theorem foldl_collect_keys {all : List Text} :
    ∀ (names : List Text) (item : BindingRow V × CollectedBindings V), (∀ x ∈ names, x ∈ all) →
      (∀ k v, item.2[k]? = some v → k ∈ all) →
      ∀ k v, (names.foldl collectBinding item).2[k]? = some v → k ∈ all
  | [], _, _, h => h
  | name :: rest, item, hnames, h => by
    refine foldl_collect_keys rest _ (fun x hx => hnames x (.tail _ hx)) ?_
    unfold collectBinding
    split
    · exact h
    · intro k v hk
      rw [lookup_insert] at hk
      split at hk
      · rename_i hkn
        rw [hkn]
        exact hnames name (.head _)
      · exact h k v hk

theorem emptyCollected_keys (names : List Text) (k : Text)
    (v : List (BindingValue V)) (h : (emptyCollected names : CollectedBindings V)[k]? = some v) :
    k ∈ names := by
  have hfold : ∀ (l : List Text) (acc : CollectedBindings V), (∀ x ∈ l, x ∈ names) →
      (∀ k v, acc[k]? = some v → k ∈ names) →
      ∀ k v, (l.foldl (fun collected name => collected.insert name []) acc)[k]? = some v →
        k ∈ names := by
    intro l
    induction l with
    | nil => exact fun acc _ hc => hc
    | cons name rest ih =>
      intro acc hl hc
      refine ih _ (fun x hx => hl x (.tail _ hx)) fun k v hk => ?_
      rw [lookup_insert] at hk
      split at hk
      · rename_i hkn
        rw [hkn]
        exact hl name (.head _)
      · exact hc k v hk
  refine hfold names ∅ (fun _ hx => hx) (fun k v hk => ?_) k v h
  simp at hk

local instance : LawfulBEq Text := inferInstance

/-- The names for nodes inside a body: its own, and those of the outside it does not hide. -/
def innerNodes (fragments : List (Fragment A X)) (nodes : List Text) : List Text :=
  nodeNamesOf fragments ++ nodes.filter (· ∉ collectFragmentVariables [] fragments)

/-- The names for lists inside a body. -/
def innerLists (fragments : List (Fragment A X)) (lists : List Text) : List Text :=
  listNamesOf fragments ++ lists.filter (· ∉ collectFragmentVariables [] fragments)

theorem inner_disjoint (hdisjoint : ∀ x ∈ nodes, x ∉ lists)
    (hscoped : ∀ x ∈ nodeNamesOf fragments, x ∉ listNamesOf fragments) :
    ∀ x ∈ innerNodes fragments nodes, x ∉ innerLists fragments lists := by
  intro x hx hx'
  simp only [innerNodes, innerLists, List.mem_append, List.mem_filter, decide_eq_true_eq] at hx hx'
  rcases hx with hx | ⟨hx, hfree⟩
  · rcases hx' with hx' | ⟨_, hfree⟩
    · exact hscoped x hx hx'
    · exact hfree (mem_collectFragmentVariables (.inr (.inl hx)))
  · rcases hx' with hx' | ⟨hx', _⟩
    · exact hfree (mem_collectFragmentVariables (.inr (.inr hx')))
    · exact hdisjoint x hx hx'

theorem clean_inner (hclean : Clean nodes lists state) :
    Clean (innerNodes fragments nodes) (innerLists fragments lists)
      (state.removeBindings (collectFragmentVariables [] fragments)) := by
  refine ⟨hclean.current, fun x hx => ?_, fun x hx => ?_⟩
  · simp only [PathState.removeBindings, foldl_remove_lookup]
    split
    · exact .inl rfl
    · rename_i hfree
      simp only [innerNodes, List.mem_append, List.mem_filter] at hx
      rcases hx with hx | ⟨hx, _⟩
      · exact absurd (mem_collectFragmentVariables (.inr (.inl hx))) hfree
      · exact hclean.node x hx
  · simp only [PathState.removeBindings, foldl_remove_lookup]
    split
    · exact .inl rfl
    · rename_i hfree
      simp only [innerLists, List.mem_append, List.mem_filter] at hx
      rcases hx with hx | ⟨hx, _⟩
      · exact absurd (mem_collectFragmentVariables (.inr (.inr hx))) hfree
      · exact hclean.list x hx

theorem clean_outer {collected : CollectedBindings Unit}
    (hlists : ∀ x ∈ collectFragmentVariables [] fragments, x ∈ lists)
    (hdisjoint : ∀ x ∈ nodes, x ∉ lists)
    (hclean : Clean (innerNodes fragments nodes) (innerLists fragments lists) state) :
    Clean nodes lists
      (collectQuantifiedBindings (collectFragmentVariables [] fragments) collected state).1 := by
  refine ⟨hclean.current, fun x hx => ?_, fun x hx => ?_⟩
  · simp only [collectQuantifiedBindings, foldl_collect_row, foldl_remove_lookup]
    have hfree : x ∉ collectFragmentVariables [] fragments := fun h => hdisjoint x hx (hlists x h)
    rw [if_neg hfree]
    refine hclean.node x (List.mem_append_right _ (List.mem_filter.mpr ⟨hx, ?_⟩))
    simpa using hfree
  · simp only [collectQuantifiedBindings, foldl_collect_row, foldl_remove_lookup]
    split
    · exact .inl rfl
    · rename_i hfree
      refine hclean.list x (List.mem_append_right _ (List.mem_filter.mpr ⟨hx, ?_⟩))
      simpa using hfree

theorem bindGroupValues_oneNode {entry : Text × List (BindingValue Unit)} :
    bindGroupValues (oneNodeContext A X rounds unlimited) state entry =
      .ok { state with row := state.row.insert entry.1 (.scalar ()) } := by
  have hvalues : ∀ values : List (BindingValue Unit), ∃ converted,
      values.mapM (fun value => ofQuery ((oneNodeContext A X rounds unlimited).bindingValue value)) =
        .ok converted := by
    intro values
    induction values with
    | nil => exact ⟨[], rfl⟩
    | cons value rest ih =>
      obtain ⟨converted, h⟩ := ih
      exact ⟨() :: converted, by rw [List.mapM_cons, h]; rfl⟩
  obtain ⟨converted, h⟩ := hvalues entry.2
  unfold bindGroupValues materializeGroupValues
  rw [h]
  rfl

theorem completeQuantifiedState_oneNode {collected : CollectedBindings Unit}
    (hdisjoint : ∀ x ∈ nodes, x ∉ lists) (hkeys : ∀ k v, collected[k]? = some v → k ∈ lists)
    (hclean : Clean nodes lists state) :
    ∃ state', completeQuantifiedState (oneNodeContext A X rounds unlimited) state collected =
      .ok state' ∧ Clean nodes lists state' := by
  have hfold : ∀ (l : List (Text × List (BindingValue Unit))) (s : PathState Unit),
      (∀ entry ∈ l, entry.1 ∈ lists) → Clean nodes lists s →
      ∃ s', l.foldlM (bindGroupValues (oneNodeContext A X rounds unlimited)) s = .ok s' ∧
        Clean nodes lists s' := by
    intro l
    induction l with
    | nil => exact fun s _ hs => ⟨s, rfl, hs⟩
    | cons entry rest ih =>
      intro s hl hs
      rw [List.foldlM_cons, bindGroupValues_oneNode]
      exact ih _ (fun e he => hl e (.tail _ he))
        (hs.insertList hdisjoint (hl entry (.head _)))
  exact hfold collected.toList state
    (fun entry he => hkeys entry.1 entry.2 (lookup_of_mem he)) hclean

theorem closeIteration_oneNode (predicate : Option X) (names : List Text)
    (collected : CollectedBindings Unit) : ∀ states : List (PathState Unit),
      closeIteration (oneNodeContext A X rounds unlimited) predicate names collected states =
        .ok (states.map (collectQuantifiedBindings names collected))
  | [] => rfl
  | state :: rest => by
    have hfits : predicateMatches (oneNodeContext A X rounds unlimited) predicate state.row =
        .ok true := by
      cases predicate <;> rfl
    unfold closeIteration
    rw [hfits, closeIteration_oneNode predicate names collected rest]
    rfl

/-- An item of a group on one node: a clean state, and values collected for the body's names. -/
def CleanItem (fragments : List (Fragment A X)) (nodes lists : List Text)
    (item : PathState Unit × CollectedBindings Unit) : Prop :=
  Clean nodes lists item.1 ∧ ∀ k v, item.2[k]? = some v → k ∈ collectFragmentVariables [] fragments

theorem completeDue_oneNode (hlists : ∀ x ∈ collectFragmentVariables [] fragments, x ∈ lists)
    (hdisjoint : ∀ x ∈ nodes, x ∉ lists) {item : PathState Unit × CollectedBindings Unit}
    (hitem : CleanItem fragments nodes lists item) (minimum depth : Nat) :
    ∃ completed, completeDue (oneNodeContext A X rounds unlimited) minimum depth item =
        .ok completed ∧ (∀ t ∈ completed, Clean nodes lists t) ∧
      (minimum ≤ depth → completed ≠ []) := by
  obtain ⟨hclean, hkeys⟩ := hitem
  unfold completeDue
  split
  · obtain ⟨t, ht, hct⟩ := completeQuantifiedState_oneNode (A := A) (X := X) rounds unlimited
      hdisjoint (fun k v h => hlists k (hkeys k v h)) hclean
    refine ⟨[t], by rw [ht]; rfl, fun t' ht' => ?_, fun _ => by simp⟩
    rcases List.mem_singleton.mp ht' with rfl
    exact hct
  · rename_i hnot
    exact ⟨[], rfl, fun _ h => absurd h List.not_mem_nil, fun h => absurd h hnot⟩

theorem cleanItems_start
    (hstates : ∀ s ∈ states, Clean nodes lists s) : ∀ item ∈ states.map fun s =>
      (s, (emptyCollected (collectFragmentVariables [] fragments) : CollectedBindings Unit)),
      CleanItem fragments nodes lists item := by
  intro item hi
  obtain ⟨s, hs, rfl⟩ := List.mem_map.mp hi
  exact ⟨hstates s hs, emptyCollected_keys _⟩

section Body

variable {fragments : List (Fragment A X)} {predicate : Option X}
  (hlists : ∀ x ∈ collectFragmentVariables [] fragments, x ∈ lists)
  (hdisjoint : ∀ x ∈ nodes, x ∉ lists)
  (hbody : ∀ states, (∀ s ∈ states,
      Clean (innerNodes fragments nodes) (innerLists fragments lists) s) →
    Goes .running (executeFragments (oneNodeContext A X rounds unlimited) mode fragments states)
      (Clean (innerNodes fragments nodes) (innerLists fragments lists))
      (minimumOf fragments = 0 ∧ states ≠ []))

include hlists hdisjoint hbody

/-- The visit of a group whose body goes. -/
theorem visitQuantified_oneNode {item : PathState Unit × CollectedBindings Unit}
    (hitem : CleanItem fragments nodes lists item) (maximum depth : Nat) :
    visitQuantified (oneNodeContext A X rounds unlimited) bounds predicate
        (collectFragmentVariables [] fragments)
        (executeFragments (oneNodeContext A X rounds unlimited) mode fragments) maximum depth item =
          .error .running ∨
      ∃ r, visitQuantified (oneNodeContext A X rounds unlimited) bounds predicate
          (collectFragmentVariables [] fragments)
          (executeFragments (oneNodeContext A X rounds unlimited) mode fragments) maximum depth
          item = .ok r ∧
        (∀ t ∈ r.1, Clean nodes lists t) ∧ (∀ i ∈ r.2, CleanItem fragments nodes lists i) ∧
        (bounds.minimum ≤ depth → r.1 ≠ []) ∧
        (minimumOf fragments = 0 → depth < maximum → r.2 ≠ []) := by
  obtain ⟨hclean, hkeys⟩ := hitem
  obtain ⟨completed, hc, hcall, hcdue⟩ := completeDue_oneNode rounds unlimited hlists hdisjoint
    (A := A) (X := X) ⟨hclean, hkeys⟩ bounds.minimum depth
  -- the next items
  have hnext : Goes .running (whileBelow depth maximum (advanceQuantifiedState
      (oneNodeContext A X rounds unlimited) predicate (collectFragmentVariables [] fragments)
      (executeFragments (oneNodeContext A X rounds unlimited) mode fragments) item.1 item.2))
      (CleanItem fragments nodes lists) (minimumOf fragments = 0 ∧ depth < maximum) := by
    unfold whileBelow
    split
    · unfold advanceQuantifiedState
      refine (hbody [item.1.removeBindings _] fun s hs => ?_).bind fun expanded hexp hmust => ?_
      · rcases List.mem_singleton.mp hs with rfl
        exact clean_inner hclean
      · rw [closeIteration_oneNode]
        refine .inr ⟨_, rfl, fun i hi => ?_, fun hm hnil => ?_⟩
        · obtain ⟨s, hs, rfl⟩ := List.mem_map.mp hi
          exact ⟨clean_outer hlists hdisjoint (hexp s hs),
            foldl_collect_keys _ _ (fun _ h => h) hkeys⟩
        · exact hmust ⟨hm.1, by simp⟩ (List.map_eq_nil_iff.mp hnil)
    · rename_i hnot
      exact .inr ⟨[], rfl, fun _ h => absurd h List.not_mem_nil, fun h => absurd h.2 hnot⟩
  unfold visitQuantified
  simp only [hc, bind, Except.bind]
  rcases hnext with h | ⟨next, h, hall, hne⟩
  · rw [h]
    exact .inl rfl
  · rw [h]
    exact .inr ⟨(completed, next), rfl, hcall, hall, hcdue, fun h0 hlt => hne ⟨h0, hlt⟩⟩

/-- The walk runs to its maximum. -/
theorem executeQuantified_runs (hunlimited : rounds ≤ unlimited) (hnone : bounds.maximum = none)
    (hcost : minimumOf fragments = 0) (hne : states ≠ [])
    (hstates : ∀ s ∈ states, Clean nodes lists s) :
    executeFragment (oneNodeContext A X rounds unlimited) mode
      (.quantified fragments bounds predicate) states = .error .running := by
  have hmax : effectiveMaximum (oneNodeContext A X rounds unlimited) bounds = .ok unlimited := by
    unfold effectiveMaximum
    rw [hnone]
    rfl
  unfold executeFragment executeQuantified
  simp only [hmax, bind, Except.bind]
  refine walk_keeps_running (I := CleanItem fragments nodes lists) (fun depth item hlt hitem => ?_)
    (by rw [Nat.zero_add]; exact hunlimited) (by simpa using hne) (cleanItems_start hstates)
  rcases visitQuantified_oneNode rounds unlimited hlists hdisjoint hbody hitem unlimited depth with
    h | ⟨r, hr, _, hall, _, hgo⟩
  · exact .inl h
  · exact .inr ⟨r, hr, hgo hcost hlt, hall⟩

theorem executeQuantified_oneNode (hvalid : bounds.Valid) (hunlimited : rounds ≤ unlimited)
    (hstates : ∀ s ∈ states, Clean nodes lists s) :
    Goes .running (executeFragment (oneNodeContext A X rounds unlimited) mode
        (.quantified fragments bounds predicate) states) (Clean nodes lists)
      (bounds.minimum * minimumOf fragments = 0 ∧ states ≠ []) := by
  by_cases hstall : bounds.maximum = none ∧ minimumOf fragments = 0 ∧ states ≠ []
  · obtain ⟨hnone, hcost, hne⟩ := hstall
    exact .inl (executeQuantified_runs rounds unlimited hlists hdisjoint hbody hunlimited hnone
      hcost hne hstates)
  · obtain ⟨maximum, hmax⟩ := effectiveMaximum_oneNode rounds unlimited A X bounds
    unfold executeFragment executeQuantified
    simp only [hmax, bind, Except.bind]
    refine (walk_goes (CleanItem fragments nodes lists) (Clean nodes lists) bounds.minimum
      (minimumOf fragments = 0) (fun depth item hitem => visitQuantified_oneNode rounds unlimited
        hlists hdisjoint hbody hitem maximum depth)
      (Nat.zero_le _) (cleanItems_start hstates) (fun _ h => absurd h List.not_mem_nil)).mono
      (fun _ h => h) fun hm => ?_
    obtain ⟨hzero, hne⟩ := hm
    refine .inr ⟨by simpa using hne, ?_⟩
    rcases Nat.mul_eq_zero.mp hzero with h | h
    · exact .inl (Nat.le_of_eq h)
    · refine .inr ⟨h, ?_⟩
      rcases effectiveMaximum_ok hmax with hsome | ⟨hnone, _⟩
      · exact hvalid maximum hsome
      · exact absurd ⟨hnone, h, hne⟩ hstall

end Body

/-- Scoped and valid fragments, whose names for nodes and for lists are kept apart. -/
structure Apart (fragments : List (Fragment A X)) (nodes lists : List Text) : Prop where
  isScoped : ScopedAll fragments
  isValid : ValidAll fragments
  nodesIn : ∀ x ∈ nodeNamesOf fragments, x ∈ nodes
  listsIn : ∀ x ∈ listNamesOf fragments, x ∈ lists
  disjoint : ∀ x ∈ nodes, x ∉ lists

section Apart

variable {fragment : Fragment A X} {fragments rest : List (Fragment A X)} {predicate : Option X}

theorem Apart.head (h : Apart (fragment :: rest) nodes lists) : Apart [fragment] nodes lists :=
  ⟨⟨h.isScoped.1, trivial⟩, ⟨h.isValid.1, trivial⟩,
    fun x hx => h.nodesIn x (List.mem_append_left _ (by simpa [nodeNamesOf] using hx)),
    fun x hx => h.listsIn x (List.mem_append_left _ (by simpa [listNamesOf] using hx)), h.disjoint⟩

theorem Apart.tail (h : Apart (fragment :: rest) nodes lists) : Apart rest nodes lists :=
  ⟨h.isScoped.2, h.isValid.2, fun x hx => h.nodesIn x (List.mem_append_right _ hx),
    fun x hx => h.listsIn x (List.mem_append_right _ hx), h.disjoint⟩

theorem Apart.collected (h : Apart [.quantified fragments bounds predicate] nodes lists) :
    ∀ x ∈ collectFragmentVariables [] fragments, x ∈ lists := fun x hx =>
  h.listsIn x (List.mem_append_left _ hx)

theorem Apart.inner (h : Apart [.quantified fragments bounds predicate] nodes lists) :
    Apart fragments (innerNodes fragments nodes) (innerLists fragments lists) :=
  ⟨h.isScoped.1.2, h.isValid.1.2, fun _ hx => List.mem_append_left _ hx,
    fun _ hx => List.mem_append_left _ hx, inner_disjoint h.disjoint h.isScoped.1.1⟩

end Apart

mutual

theorem executeFragment_goes (hunlimited : rounds ≤ unlimited) :
    ∀ (fragment : Fragment A X) {nodes lists : List Text}, Apart [fragment] nodes lists →
      ∀ states : List (PathState Unit), (∀ s ∈ states, Clean nodes lists s) →
      Goes .running (executeFragment (oneNodeContext A X rounds unlimited) mode fragment states)
        (Clean nodes lists) (fragment.minimumRelationships = 0 ∧ states ≠ [])
  | .simple start chains, nodes, lists, h, states, hstates => by
    unfold executeFragment Fragment.minimumRelationships
    exact executeSimple_oneNode rounds unlimited h.disjoint
      (fun x hx => h.nodesIn x (List.mem_append_left _ hx))
      (fun x hx => h.listsIn x (List.mem_append_left _ hx)) hstates
  | .quantified fragments bounds predicate, nodes, lists, h, states, hstates => by
    unfold Fragment.minimumRelationships
    exact executeQuantified_oneNode rounds unlimited h.collected h.disjoint
      (fun states hs => executeFragments_goes hunlimited fragments h.inner states hs)
      h.isValid.1.1 hunlimited hstates

/-- **On one node every scoped pattern goes**, and it matches where it needs no relationship. -/
theorem executeFragments_goes (hunlimited : rounds ≤ unlimited) :
    ∀ (fragments : List (Fragment A X)) {nodes lists : List Text}, Apart fragments nodes lists →
      ∀ states : List (PathState Unit), (∀ s ∈ states, Clean nodes lists s) →
      Goes .running (executeFragments (oneNodeContext A X rounds unlimited) mode fragments states)
        (Clean nodes lists) (minimumOf fragments = 0 ∧ states ≠ [])
  | [], nodes, lists, _, states, hstates => by
    unfold executeFragments
    exact .inr ⟨states, rfl, hstates, fun h => h.2⟩
  | fragment :: rest, nodes, lists, h, states, hstates => by
    unfold executeFragments minimumOf
    refine (executeFragment_goes hunlimited fragment h.head states hstates).bind
      fun expanded hexp hmust => ?_
    split
    · rename_i hempty
      refine .inr ⟨[], rfl, fun _ h => absurd h List.not_mem_nil, fun hm => ?_⟩
      exact absurd (List.isEmpty_iff.mp hempty) (hmust ⟨by omega, hm.2⟩)
    · exact (executeFragments_goes hunlimited rest h.tail expanded hexp).mono (fun _ h => h)
        fun hm => ⟨by omega, hmust ⟨by omega, hm.2⟩⟩

end

mutual

theorem executeFragment_stalls (hunlimited : rounds ≤ unlimited) :
    ∀ (fragment : Fragment A X) {nodes lists : List Text}, Apart [fragment] nodes lists →
      fragment.Stalls → ∀ states : List (PathState Unit), states ≠ [] →
      (∀ s ∈ states, Clean nodes lists s) →
      executeFragment (oneNodeContext A X rounds unlimited) mode fragment states =
        .error .running
  | .simple start chains, _, _, _, hstalls, _, _, _ => by
    unfold Fragment.Stalls at hstalls
    exact hstalls.elim
  | .quantified fragments bounds predicate, nodes, lists, h, hstalls, states, hne, hstates => by
    unfold Fragment.Stalls at hstalls
    rcases hstalls with ⟨hnone, hcost⟩ | ⟨hmaximum, hbody⟩
    · exact executeQuantified_runs rounds unlimited h.collected h.disjoint
        (fun states hs => executeFragments_goes rounds unlimited hunlimited fragments h.inner
          states hs) hunlimited hnone hcost hne hstates
    · -- the first iteration of the body is already running
      obtain ⟨maximum, hmax⟩ := effectiveMaximum_oneNode rounds unlimited A X bounds
      unfold executeFragment executeQuantified
      simp only [hmax, bind, Except.bind]
      by_cases hzero : maximum = 0
      · have hrounds : rounds = 0 := by
          rcases effectiveMaximum_ok hmax with hsome | ⟨hnone, _⟩
          · exact absurd (hzero ▸ hsome) hmaximum
          · unfold effectiveMaximum at hmax
            rw [hnone] at hmax
            have := Except.ok.inj hmax
            simp only [oneNodeContext] at this
            omega
        subst hrounds
        rfl
      · refine walk_running_first (by simpa using hne) fun item hi => ?_
        obtain ⟨hclean, hkeys⟩ := cleanItems_start hstates item hi
        obtain ⟨completed, hc, _⟩ := completeDue_oneNode (A := A) (X := X) rounds unlimited
          h.collected h.disjoint ⟨hclean, hkeys⟩ bounds.minimum 0
        have hrun := executeFragments_stalls hunlimited fragments h.inner hbody
          [item.1.removeBindings (collectFragmentVariables [] fragments)] (by simp) fun s hs => by
            rcases List.mem_singleton.mp hs with rfl
            exact clean_inner hclean
        unfold visitQuantified whileBelow advanceQuantifiedState
        rw [hc, if_pos (by omega), hrun]
        rfl

/-- **A stalling pattern is still running after any number of rounds.** -/
theorem executeFragments_stalls (hunlimited : rounds ≤ unlimited) :
    ∀ (fragments : List (Fragment A X)) {nodes lists : List Text}, Apart fragments nodes lists →
      StallsAll fragments → ∀ states : List (PathState Unit), states ≠ [] →
      (∀ s ∈ states, Clean nodes lists s) →
      executeFragments (oneNodeContext A X rounds unlimited) mode fragments states =
        .error .running
  | [], _, _, _, hstalls, _, _, _ => by
    unfold StallsAll at hstalls
    exact hstalls.elim
  | fragment :: rest, nodes, lists, h, hstalls, states, hne, hstates => by
    unfold StallsAll at hstalls
    unfold executeFragments
    rcases hstalls with hfirst | ⟨hzero, hrest⟩
    · rw [executeFragment_stalls hunlimited fragment h.head hfirst states hne hstates]
      rfl
    · rcases executeFragment_goes rounds unlimited hunlimited fragment h.head states hstates with
        hrun | ⟨expanded, hrun, hexp, hmust⟩
      · rw [hrun]
        rfl
      · have hne' := hmust ⟨hzero, hne⟩
        rw [hrun]
        simp only [bind, Except.bind, List.isEmpty_iff, hne', if_false]
        exact executeFragments_stalls hunlimited rest h.tail hrest expanded hne' hexp

end

/-- A row whose names are free or bound to the node, respectively to a list. -/
def CleanRow (nodes lists : List Text) (row : BindingRow Unit) : Prop :=
  Clean nodes lists { row := row }

theorem take_ne_nil (hcount : 1 ≤ selector.count)
    {paths : List (PathState Unit)} (hne : paths ≠ []) : selector.take paths ≠ [] := by
  obtain ⟨first, rest, rfl⟩ := List.exists_cons_of_ne_nil hne
  have htake : ∀ {α : Type} {l : List α}, l ≠ [] → l.take selector.count ≠ [] := by
    intro α l hl h
    rcases List.take_eq_nil_iff.mp h with h | h
    · omega
    · exact hl h
  unfold PathSelector.take
  cases selector.kind with
  | all => exact hne
  | any => exact htake hne
  | shortestPaths => exact htake hne
  | anyShortest => exact List.cons_ne_nil _ _
  | allShortest =>
    dsimp only
    rw [List.takeWhile_cons_of_pos (by simp)]
    exact List.cons_ne_nil _ _
  | shortestGroups =>
    have hlengths : ((first :: rest).map (·.relationships.length)).dedup ≠ [] :=
      fun h => List.cons_ne_nil _ _ (List.map_eq_nil_iff.mp ((List.dedup_eq_nil _).mp h))
    obtain ⟨n, hn⟩ := List.exists_mem_of_ne_nil _ (htake hlengths)
    obtain ⟨path, hpath, rfl⟩ :=
      List.mem_map.mp (List.mem_dedup.mp (List.mem_of_mem_take hn))
    exact List.ne_nil_of_mem (List.mem_filter.mpr ⟨hpath, by simpa using hn⟩)

theorem take_subset {paths : List (PathState Unit)} : selector.take paths ⊆ paths := by
  unfold PathSelector.take shortestGroups
  cases selector.kind with
  | all => exact List.Subset.refl _
  | any => exact List.take_subset _ _
  | shortestPaths => exact List.take_subset _ _
  | anyShortest => exact List.take_subset _ _
  | allShortest =>
    cases paths with
    | nil => exact List.Subset.refl _
    | cons first rest => exact List.takeWhile_subset _
  | shortestGroups => exact List.filter_subset_self _

theorem applySelector_some (hcount : 1 ≤ selector.count) :
    applySelector states selector ⊆ states ∧ (states ≠ [] → applySelector states selector ≠ []) := by
  unfold applySelector
  split
  · exact ⟨List.Subset.refl _, fun h => h⟩
  refine ⟨fun state hstate => ?_, fun hne => ?_⟩
  · obtain ⟨key, _, hmem⟩ := List.mem_flatMap.mp hstate
    exact (List.mem_filter.mp (List.mem_mergeSort.mp (take_subset hmem))).1
  · obtain ⟨state, hstate⟩ := List.exists_mem_of_ne_nil _ hne
    have hpaths : (states.filter (·.ends = state.ends)).mergeSort pathsOrdered ≠ [] :=
      List.ne_nil_of_mem (List.mem_mergeSort.mpr (List.mem_filter.mpr ⟨hstate, by simp⟩))
    obtain ⟨path, hpath⟩ := List.exists_mem_of_ne_nil _ (take_ne_nil hcount hpaths)
    refine List.ne_nil_of_mem (List.mem_flatMap.mpr ⟨state.ends, ?_, hpath⟩)
    exact List.mem_mergeSort.mpr (List.mem_dedup.mpr (List.mem_map_of_mem hstate))

theorem executePart_goes (hunlimited : rounds ≤ unlimited)
    (happart : Apart part.fragments nodes lists) (hvariable : part.pathVariable = none)
    (hcount : 1 ≤ part.selector.count) (hzero : minimumOf part.fragments = 0)
    {row : BindingRow Unit} (hrow : CleanRow nodes lists row) :
    Goes .running (executePart (oneNodeContext A X rounds unlimited) part row)
      (CleanRow nodes lists) True := by
  unfold executePart
  refine (executeFragments_goes rounds unlimited hunlimited part.fragments happart
    [{ row := row }] fun s hs => List.mem_singleton.mp hs ▸ hrow).bind fun found hfound hmust => ?_
  unfold bindPartPaths
  rw [hvariable]
  obtain ⟨hsome, hne⟩ := @applySelector_some found _ hcount
  refine .inr ⟨_, rfl, fun row' hrow' => ?_, fun _ hnil => ?_⟩
  · obtain ⟨s, hs, rfl⟩ := List.mem_map.mp hrow'
    have hclean := hfound s (hsome hs)
    exact ⟨.inl rfl, hclean.node, hclean.list⟩
  · exact hne (hmust ⟨hzero, by simp⟩) (List.map_eq_nil_iff.mp hnil)

/-- The fragments of some parts, one part after the other. -/
def fragmentsOf (parts : List (PatternPartSpec A X)) : List (Fragment A X) :=
  parts.flatMap (·.fragments)

/-- A part that only nodes are needed for, and that names no path. -/
structure Plain (part : PatternPartSpec A X) : Prop where
  unnamed : part.pathVariable = none
  zero : minimumOf part.fragments = 0

theorem executeMatchParts_stalls (hunlimited : rounds ≤ unlimited)
    {rest : List (PatternPartSpec A X)} (hstalls : StallsAll part.fragments) :
    ∀ {front : List (PatternPartSpec A X)} {rows : List (BindingRow Unit)},
      (∀ other ∈ front, Plain other ∧ 1 ≤ other.selector.count) →
      (∀ other ∈ front ++ [part], Apart other.fragments nodes lists) → rows ≠ [] →
      (∀ row ∈ rows, CleanRow nodes lists row) →
      executeMatchParts (oneNodeContext A X rounds unlimited) (front ++ part :: rest) rows =
        .error .running
  | [], rows, _, happart, hne, hrows => by
    obtain ⟨row, others, rfl⟩ := List.exists_cons_of_ne_nil hne
    have hclean : ∀ s ∈ [({ row := row } : PathState Unit)], Clean nodes lists s :=
      fun s hs => List.mem_singleton.mp hs ▸ hrows row (.head _)
    have hrun : executeFragments (oneNodeContext A X rounds unlimited) part.pathMode part.fragments
        [{ row := row }] = .error .running :=
      executeFragments_stalls rounds unlimited hunlimited part.fragments
        (happart part (.head _)) hstalls _ (List.cons_ne_nil _ _) hclean
    rw [List.nil_append]
    unfold executeMatchParts expandStates executePart
    simp only [hrun, bind, Except.bind]
  | other :: front, rows, hplain, happart, hne, hrows => by
    obtain ⟨⟨hother, hcount⟩, hplain⟩ := List.forall_mem_cons.mp hplain
    obtain ⟨hhere, happart⟩ := List.forall_mem_cons.mp happart
    rw [List.cons_append]
    unfold executeMatchParts
    rcases expandStates_goes (fun row hrow => executePart_goes rounds unlimited hunlimited hhere
      hother.unnamed hcount hother.zero hrow) hrows with h | ⟨expanded, h, hall, hmust⟩
    · rw [h]
      rfl
    · have hsome := hmust ⟨trivial, hne⟩
      rw [h]
      simp only [bind, Except.bind, List.isEmpty_iff, hsome, if_false]
      exact executeMatchParts_stalls hunlimited hstalls hplain happart hsome hall

/-- A clause with a stalling part is still running on one node, where the parts before need only
nodes. -/
theorem executeMatch_stalls (hunlimited : rounds ≤ unlimited) {clause : List (PartAst A X)}
    {front rest : List (PatternPartSpec A X)}
    (hparse : clause.mapM parsePart = .ok (front ++ part :: rest))
    (hplain : ∀ other ∈ front, Plain other ∧ 1 ≤ other.selector.count)
    (hnames : ∀ x ∈ nodeNamesOf (fragmentsOf (front ++ [part])),
      x ∉ listNamesOf (fragmentsOf (front ++ [part])))
    (hscoped : ∀ other ∈ front ++ [part], ScopedAll other.fragments)
    (hvalid : ∀ other ∈ front ++ [part], ValidAll other.fragments)
    (hstalls : StallsAll part.fragments) :
    executeMatch (oneNodeContext A X rounds unlimited) clause [{}] = .error .running := by
  have hclean : CleanRow (nodeNamesOf (fragmentsOf (front ++ [part])))
      (listNamesOf (fragmentsOf (front ++ [part]))) { usedRelationships := ∅ } :=
    ⟨.inl rfl, fun x _ => .inl (by simp), fun x _ => .inl (by simp)⟩
  have happart : ∀ other ∈ front ++ [part], Apart other.fragments
      (nodeNamesOf (fragmentsOf (front ++ [part])))
      (listNamesOf (fragmentsOf (front ++ [part]))) := by
    intro other hother
    have hwithin : ∀ fragment ∈ other.fragments, fragment ∈ fragmentsOf (front ++ [part]) :=
      fun fragment hfragment => List.mem_flatMap.mpr ⟨other, hother, hfragment⟩
    refine ⟨hscoped other hother, hvalid other hother, fun x hx => ?_, fun x hx => ?_, hnames⟩
    · obtain ⟨fragment, hfragment, hx⟩ := List.mem_flatMap.mp hx
      exact List.mem_flatMap.mpr ⟨fragment, hwithin fragment hfragment, hx⟩
    · obtain ⟨fragment, hfragment, hx⟩ := List.mem_flatMap.mp hx
      exact List.mem_flatMap.mpr ⟨fragment, hwithin fragment hfragment, hx⟩
  have hrun : executeMatchParts (oneNodeContext A X rounds unlimited) (front ++ part :: rest)
      [{ usedRelationships := ∅ }] = .error .running :=
    executeMatchParts_stalls rounds unlimited hunlimited hstalls hplain happart
      (List.cons_ne_nil _ _) fun row hrow => List.mem_singleton.mp hrow ▸ hclean
  unfold executeMatch
  simp only [hparse, ofQuery, bind, Except.bind, expandStates, hrun]

end OneNode

/-! ## 5. What the parser leaves -/

theorem parseQuantifier_valid {quantifier : Quantifier}
    (h : parseQuantifier quantifier = .ok bounds) : bounds.Valid := by
  have hvalidate : ∀ {b : Bounds}, validateBounds b = .ok bounds → bounds.Valid := by
    intro b hb m hm
    unfold validateBounds at hb
    obtain ⟨_, hrefuse, hb⟩ := bind_eq_ok.mp hb
    cases hb
    rw [refuseWhen_ok, hm] at hrefuse
    simpa using hrefuse
  cases quantifier with
  | zeroOrMore => exact hvalidate h
  | oneOrMore => exact hvalidate h
  | fixed lower =>
    obtain ⟨_, _, h⟩ := bind_eq_ok.mp h
    exact hvalidate h
  | range lower upper =>
    obtain ⟨_, _, h⟩ := bind_eq_ok.mp h
    obtain ⟨_, _, h⟩ := bind_eq_ok.mp h
    exact hvalidate h

mutual

theorem parseSegment_valid : ∀ (segment : Segment A X) {fragment : Fragment A X},
    parseSegment segment = .ok fragment → fragment.Valid
  | .simple start chains, fragment, h => by
    unfold parseSegment at h
    obtain ⟨chains', _, h⟩ := bind_eq_ok.mp h
    cases h
    unfold Fragment.Valid
    trivial
  | .grouped element predicate quantifier, fragment, h => by
    unfold parseSegment at h
    obtain ⟨fragments, hfragments, h⟩ := bind_eq_ok.mp h
    obtain ⟨bounds, hbounds, h⟩ := bind_eq_ok.mp h
    cases h
    unfold Fragment.Valid
    exact ⟨parseQuantifier_valid hbounds, parsePatternElement_valid element hfragments⟩

theorem parsePatternElement_valid : ∀ (element : List (Segment A X))
    {fragments : List (Fragment A X)}, parsePatternElement element = .ok fragments →
      ValidAll fragments
  | [], fragments, h => by
    unfold parsePatternElement at h
    cases h
    unfold ValidAll
    trivial
  | segment :: rest, fragments, h => by
    unfold parsePatternElement at h
    obtain ⟨fragment, hfragment, h⟩ := bind_eq_ok.mp h
    obtain ⟨others, hothers, h⟩ := bind_eq_ok.mp h
    cases h
    unfold ValidAll
    exact ⟨parseSegment_valid segment hfragment, parsePatternElement_valid rest hothers⟩

end

theorem parsePart_valid {part : PartAst A X} {spec : PatternPartSpec A X}
    (h : parsePart part = .ok spec) : ValidAll spec.fragments ∧ 1 ≤ spec.selector.count := by
  unfold parsePart at h
  obtain ⟨_, hcount, h⟩ := bind_eq_ok.mp h
  obtain ⟨fragments, hfragments, h⟩ := bind_eq_ok.mp h
  obtain ⟨_, _, h⟩ := bind_eq_ok.mp h
  cases h
  rw [refuseWhen_ok, beq_eq_false_iff_ne] at hcount
  exact ⟨parsePatternElement_valid part.element hfragments, Nat.one_le_iff_ne_zero.mpr hcount⟩

/-! ## 6. Which clauses come to their end -/

/-- The clause comes to its end on every graph, for every input and whatever the other modules
    answer: after a number of rounds that does not depend on how large the maximum of a repetition
    without a limit is. -/
def Terminates (mode : MatchModeKind) (clause : List (PartAst A X)) : Prop :=
  ∀ (V : Type) [DecidableEq V] (context : PathContext A X V) (input : List (BindingRow V)),
    context.matchMode = mode → ∃ rounds, ∀ unlimited,
      Settles (executeMatch { context with rounds := rounds, unlimited := unlimited } clause input)

/-- Some match of the parts, on some graph, enters a group without a limit whose body needs no
    relationship. -/
def MayEnter (mode : MatchModeKind) (parts : List (PatternPartSpec A X)) : Prop :=
  ∃ (V : Type) (_ : DecidableEq V) (context : PathContext A X V) (row : BindingRow V),
    context.matchMode = mode ∧ EntersParts context parts [{ row with usedRelationships := ∅ }]

/-- `(a) ((b)-[r]->(c))*`: every repetition steps over a relationship. -/
def stepsAway : PartAst Unit Unit where
  element := [.simple { var := some ['a'] } [],
    .grouped [.simple { var := some ['b'] }
      [{ relationship := { var := some ['r'], direction := .outgoing }
         endNode := { var := some ['c'] } }]] none .zeroOrMore]

/-- `((a))*`: a body that is one node. -/
def emptyBody : PartAst Unit Unit where
  element := [.grouped [.simple { var := some ['a'] } []] none .zeroOrMore]

/-- `(((a))*){0}`: a repetition that is never entered. -/
def neverEntered : PartAst Unit Unit where
  element := [.grouped emptyBody.element none (.fixed 0)]

end Lithograph.Query.Path
