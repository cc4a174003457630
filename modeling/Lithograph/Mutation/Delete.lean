/-
  File:      Lithograph/Mutation/Delete.lean
  Subject:   `DELETE` and `DETACH DELETE` (`query/mutation/execute/delete.rs`).

  The targets of all rows are gathered first. One pass takes out the relationships, a second one the
  nodes, each with the relationships it still has. Left out: memory reservations and interruption,
  and the evaluation of the targets.

  * **`delete_exact`**: when a clause is accepted, what it leaves, and that order does not matter.
-/
import Lithograph.Library.Verdict
import Lithograph.Mutation.Removal
import Lithograph.Query.GraphView
import Lithograph.Query.Path.Execute

namespace Lithograph.Mutation

open Std Library Storage Query Query.Path

/-! ## 1. The clause -/

def scanBatch : Nat := 256

def allIncident (s : Snapshot) (node : NodeId) : List RelationshipRecord :=
  s.indexed.scanIncident node none scanBatch

def outsideView (message : String) : QueryError := ⟨.graphViewViolation, message⟩

def deleteRelationship (ctx : MutationContext) (staged : Snapshot) (record : RelationshipRecord) :
    QueryResult MutationContext := do
  ctx.requireDelete
  let properties ← ofStorage (staged.visitOwnerProperties .relationship record.id)
  let ctx ← properties.foldlM
    (fun ctx e => ctx.setPropertyForDelete (.relationship, record.id, e.1.2.2) none) ctx
  if (staged.relationship record.id).isSome then ctx.setRelationship record.id none else pure ctx

def deleteNode (ctx : MutationContext) (staged : Snapshot) (id : NodeId) :
    QueryResult MutationContext := do
  ctx.requireDelete
  let ctx ← (staged.labels id).foldlM (fun ctx label => ctx.setLabelForDelete id label false) ctx
  let properties ← ofStorage (staged.visitOwnerProperties .node id)
  let ctx ← properties.foldlM (fun ctx e => ctx.setPropertyForDelete (.node, id, e.1.2.2) none) ctx
  if staged.nodeExists id then ctx.setNode id false else pure ctx

section Clause

variable {V : Type} (clauseInput : Snapshot) (view : ResolvedGraphView) (detach : Bool)

def deleteBoundRelationship (ctx : MutationContext) (record : RelationshipRecord) :
    QueryResult MutationContext :=
  let refused := outsideView ("DELETE cannot target Relationship " ++ toString record.id ++
    " outside the active Graph View")
  if (clauseInput.relationship record.id).any
      fun input => !view.visibleRelationship clauseInput input then .error refused
  else match ctx.staged.relationship record.id with
    | none => .ok ctx
    | some current =>
      if (clauseInput.relationship record.id).isNone &&
          !view.visibleRelationship ctx.staged current then .error refused
      else deleteRelationship ctx ctx.staged current

def requireVisibleDeleteNode (staged : Snapshot) (id : NodeId) : QueryResult Unit :=
  let refused := outsideView ("DELETE cannot target Node " ++ toString id ++
    " outside the active Graph View")
  if clauseInput.nodeExists id && !view.visibleNode clauseInput id then .error refused
  else if !clauseInput.nodeExists id && !view.visibleNode staged id then .error refused
  else .ok ()

/-- One relationship of a node that is deleted. -/
def deleteIncident (staged : Snapshot) (id : NodeId) (ctx : MutationContext)
    (relationship : RelationshipRecord) : QueryResult MutationContext :=
  let visible := match clauseInput.relationship relationship.id with
    | some input => view.visibleRelationship clauseInput input
    | none => view.visibleRelationship staged relationship
  if !visible then
    .error (outsideView ("deleting Node " ++ toString id ++
      " would implicitly delete Relationship " ++ toString relationship.id ++
      " outside the active Graph View"))
  else deleteRelationship ctx staged relationship

def deleteIncidentRelationships (ctx : MutationContext) (staged : Snapshot) (id : NodeId) :
    QueryResult MutationContext :=
  let incident := allIncident staged id
  if !incident.isEmpty && !detach then
    .error ⟨.constraint, "cannot DELETE Node " ++ toString id ++
      " while Relationships still reference it; use DETACH DELETE"⟩
  else incident.foldlM (deleteIncident clauseInput view staged id) ctx

def deleteBoundNode (ctx : MutationContext) (id : NodeId) : QueryResult MutationContext := do
  let staged := ctx.staged
  requireVisibleDeleteNode clauseInput view staged id
  if !staged.nodeExists id then pure ctx
  else do
    let ctx ← deleteIncidentRelationships clauseInput view detach ctx staged id
    deleteNode ctx staged id

/-- A value that `validate_delete_values` does not let through. -/
def scalarValue : QueryResult MutationContext := .error (.internal "DELETE values are validated first")

def deleteRelationshipValue (ctx : MutationContext) :
    Option (BindingValue V) → QueryResult MutationContext
  | some (.relationship record) => deleteBoundRelationship clauseInput view ctx record
  | some (.path _ relationships) =>
    relationships.foldlM (deleteBoundRelationship clauseInput view) ctx
  | some (.node _) => .ok ctx
  | some .null => .ok ctx
  | none => .ok ctx
  | some (.scalar _) => scalarValue

def deleteNodeValue (ctx : MutationContext) : Option (BindingValue V) → QueryResult MutationContext
  | some (.node id) => deleteBoundNode clauseInput view detach ctx id
  | some (.path nodes _) => nodes.foldlM (deleteBoundNode clauseInput view detach) ctx
  | some (.relationship _) => .ok ctx
  | some .null => .ok ctx
  | none => .ok ctx
  | some (.scalar _) => scalarValue

def isScalar : Option (BindingValue V) → Bool
  | some (.scalar _) => true
  | _ => false

variable (rows : List (BindingRow V)) (names : List Text)

def validateDeleteValues : QueryResult Unit :=
  refuseWhen (rows.any fun row => names.any fun name => isScalar row.values[name]?)
    ⟨.type, "DELETE requires Node, Relationship, Path, or null values"⟩

def applyDeleteRelationships (ctx : MutationContext) : QueryResult MutationContext :=
  rows.foldlM (fun ctx row => names.foldlM (fun ctx name =>
    deleteRelationshipValue clauseInput view ctx row.values[name]?) ctx) ctx

def applyDeleteNodes (ctx : MutationContext) : QueryResult MutationContext :=
  rows.foldlM (fun ctx row => names.foldlM (fun ctx name =>
    deleteNodeValue clauseInput view detach ctx row.values[name]?) ctx) ctx

def applyDelete (ctx : MutationContext) : QueryResult MutationContext := do
  validateDeleteValues rows names
  let ctx ← applyDeleteRelationships clauseInput view rows names ctx
  applyDeleteNodes clauseInput view detach rows names ctx

end Clause

/-- `execute_delete_clause`, once the targets are evaluated: the input of the clause is what the
    statement has staged so far. -/
def executeDeleteClause {V : Type} (ctx : MutationContext) (view : ResolvedGraphView) (detach : Bool)
    (rows : List (BindingRow V)) (names : List Text) : QueryResult MutationContext :=
  applyDelete ctx.staged view detach rows names ctx

/-- `execute_write` after the clause: the layer is there to be committed only where the clause was
    accepted. -/
def finishWrite (clause : QueryResult MutationContext) : QueryResult LayerBuilder := do
  let ctx ← clause
  ctx.delta.layer

/-- The graph of a branch once the statement is over. -/
def branchAfter (base : Snapshot) : QueryResult LayerBuilder → Snapshot
  | .ok layer => base.applyLayer layer
  | .error _ => base

/-! ## 2. One element -/

/-- The facts of deleted nodes and relationships. -/
def Removed (nodes : NodeId → Prop) (relationships : RelationshipId → Prop) : Fact → Prop
  | .node id => nodes id
  | .label row => nodes row.1
  | .relationship id => relationships id
  | .property (.node, owner, _) => nodes owner
  | .property (.relationship, owner, _) => relationships owner

section Removed

variable {N N' : NodeId → Prop} {R R' : RelationshipId → Prop}

theorem removed_or (fact : Fact) : Removed N R fact ∨ Removed N' R' fact ↔
    Removed (fun n => N n ∨ N' n) (fun r => R r ∨ R' r) fact := by
  cases fact with
  | property slot =>
    obtain ⟨kind, owner, key⟩ := slot
    cases kind <;> exact Iff.rfl
  | node _ => exact Iff.rfl
  | label _ => exact Iff.rfl
  | relationship _ => exact Iff.rfl

theorem not_removed (fact : Fact) : ¬ Removed (fun _ => False) (fun _ => False) fact := by
  cases fact with
  | property slot =>
    obtain ⟨kind, owner, key⟩ := slot
    cases kind <;> exact not_false
  | node _ => exact not_false
  | label _ => exact not_false
  | relationship _ => exact not_false

theorem removed_congr (hN : ∀ n, N n ↔ N' n) (hR : ∀ r, R r ↔ R' r) (fact : Fact) :
    Removed N R fact ↔ Removed N' R' fact := by
  have hnodes : N = N' := funext fun n => propext (hN n)
  have hrelationships : R = R' := funext fun r => propext (hR r)
  rw [hnodes, hrelationships]

end Removed

variable {s input : Snapshot} {id : NodeId} {g : GraphState} {gone : Fact → Prop}
  {record : RelationshipRecord} {ctx : MutationContext} {names : List Text}
  {view : ResolvedGraphView}

section Element

variable {start ctx : MutationContext} {had : Fact → Prop}

theorem requireDelete_decides (ctx : MutationContext) :
    Decides (fun _ => True) ctx.requireDelete (ctx.access.allowDelete = true) := by
  unfold MutationContext.requireDelete refuseWhen
  cases hallow : ctx.access.allowDelete with
  | true => exact .inl ⟨rfl, rfl⟩
  | false => exact .inr ⟨by decide, _, trivial, rfl⟩

/-- The properties of an owner, as a loop over them takes them out. -/
def propertyFacts (s : Snapshot) (kind : OwnerKind) (owner : Int) : List Fact :=
  (s.graph.properties.toList.filter fun e => e.1.1 = kind ∧ e.1.2.1 = owner).map
    fun e => .property (kind, owner, e.1.2.2)

theorem mem_propertyFacts {kind : OwnerKind} {owner : Int} {fact : Fact} :
    fact ∈ propertyFacts s kind owner ↔ ∃ key, fact = .property (kind, owner, key) ∧
      s.graph.properties[(kind, owner, key)]? ≠ none := by
  unfold propertyFacts
  rw [List.mem_map]
  constructor
  · intro h
    obtain ⟨⟨⟨kind', owner', key⟩, value⟩, he, rfl⟩ := h
    obtain ⟨hmem, howner⟩ := List.mem_filter.mp he
    obtain ⟨rfl, rfl⟩ : kind' = kind ∧ owner' = owner := by simpa using howner
    refine ⟨key, rfl, ?_⟩
    rw [lookup_of_mem hmem]
    simp
  · intro h
    obtain ⟨key, rfl, hread⟩ := h
    obtain ⟨value, hvalue⟩ := Option.ne_none_iff_exists'.mp hread
    refine ⟨((kind, owner, key), value), List.mem_filter.mpr ⟨mem_of_lookup hvalue, ?_⟩,
      rfl⟩
    simp

theorem foldlM_properties (kind : OwnerKind) (owner : Int) :
    (s.graph.properties.toList.filter fun e => e.1.1 = kind ∧ e.1.2.1 = owner).foldlM
        (fun (ctx : MutationContext) e => ctx.setPropertyForDelete (kind, owner, e.1.2.2) none) ctx =
      runCalls ctx ((propertyFacts s kind owner).map removal) := by
  unfold runCalls propertyFacts
  rw [List.foldlM_map, List.foldlM_map]
  rfl

theorem runCalls_append (calls calls' : List MutationCall) :
    runCalls ctx (calls ++ calls') = runCalls ctx calls >>= fun ctx => runCalls ctx calls' :=
  List.foldlM_append

theorem runCalls_ite (present : Bool) (fact : Fact) :
    runCalls ctx ((if present then [fact] else []).map removal) =
      if present then runCall ctx (removal fact) else pure ctx := by
  unfold runCalls
  cases present with
  | true => simp
  | false => rfl

/-- The facts of a relationship that a snapshot has. -/
def relationshipFacts (s : Snapshot) (id : RelationshipId) : List Fact :=
  propertyFacts s .relationship id ++
    if (s.relationship id).isSome then [.relationship id] else []

/-- The facts of a node that a snapshot has. -/
def nodeFacts (s : Snapshot) (id : NodeId) : List Fact :=
  (s.labels id).map (fun label => .label (id, label)) ++ (propertyFacts s .node id ++
    if s.nodeExists id then [.node id] else [])

theorem mem_relationshipFacts {id : RelationshipId} (fact : Fact) : fact ∈ relationshipFacts s id ↔
      Removed (fun _ => False) (· = id) fact ∧ fact.read s.graph ≠ none := by
  unfold relationshipFacts
  rw [List.mem_append, mem_propertyFacts, Snapshot.relationship_eq]
  constructor
  · intro h
    rcases h with ⟨key, rfl, hread⟩ | hin
    · exact ⟨rfl, hread⟩
    · split at hin
      · rename_i hsome
        obtain rfl := List.mem_singleton.mp hin
        exact ⟨rfl, Option.isSome_iff_ne_none.mp hsome⟩
      · cases hin
  · intro h
    obtain ⟨hfact, hread⟩ := h
    cases fact with
    | node _ => exact hfact.elim
    | label _ => exact hfact.elim
    | relationship other =>
      obtain rfl : other = id := hfact
      have hsome : s.graph.relationships[other]?.isSome := Option.isSome_iff_ne_none.mpr hread
      refine .inr ?_
      rw [if_pos hsome]
      exact List.mem_singleton_self _
    | property slot =>
      obtain ⟨kind, owner, key⟩ := slot
      cases kind with
      | node => exact hfact.elim
      | relationship =>
        obtain rfl : owner = id := hfact
        exact .inl ⟨key, rfl, hread⟩

theorem mem_nodeFacts (hs : s.Formed) (fact : Fact) : fact ∈ nodeFacts s id ↔
      Removed (· = id) (fun _ => False) fact ∧ fact.read s.graph ≠ none := by
  have hlabel : ∀ label, label ∈ s.labels id ↔ s.graph.labels[(id, label)]? ≠ none := by
    intro label
    rw [← Option.isSome_iff_ne_none, ← Snapshot.hasLabel_eq_graph hs, Snapshot.hasLabel,
      List.contains_iff_mem]
  unfold nodeFacts
  rw [List.mem_append, List.mem_append, List.mem_map, mem_propertyFacts, Snapshot.nodeExists_eq]
  constructor
  · intro h
    rcases h with ⟨label, hin, rfl⟩ | ⟨key, rfl, hread⟩ | hin
    · exact ⟨rfl, (hlabel label).mp hin⟩
    · exact ⟨rfl, hread⟩
    · split at hin
      · rename_i hsome
        obtain rfl := List.mem_singleton.mp hin
        exact ⟨rfl, Option.isSome_iff_ne_none.mp hsome⟩
      · cases hin
  · intro h
    obtain ⟨hfact, hread⟩ := h
    cases fact with
    | node other =>
      obtain rfl : other = id := hfact
      have hsome : s.graph.nodes[other]?.isSome := Option.isSome_iff_ne_none.mpr hread
      refine .inr (.inr ?_)
      rw [if_pos hsome]
      exact List.mem_singleton_self _
    | label row =>
      obtain ⟨node, label⟩ := row
      obtain rfl : node = id := hfact
      exact .inl ⟨label, (hlabel label).mpr hread, rfl⟩
    | relationship _ => exact hfact.elim
    | property slot =>
      obtain ⟨kind, owner, key⟩ := slot
      cases kind with
      | node =>
        obtain rfl : owner = id := hfact
        exact .inr (.inl ⟨key, rfl, hread⟩)
      | relationship => exact hfact.elim

theorem deleteRelationship_goes (hstart : Ready start) (h : Goes had start ctx)
    (record : RelationshipRecord) :
    DecidesTo (start.access.allowDelete = true) (deleteRelationship ctx start.staged record)
      (Goes (fun fact => had fact ∨ Removed (fun _ => False) (· = record.id) fact) start) := by
  have hguard := requireDelete_decides ctx
  rw [h.access] at hguard
  refine hguard.guards fun hallow => ?_
  obtain ⟨ctx', hrun, hgoes⟩ := runCalls_gone hstart h hallow mem_relationshipFacts
  refine ⟨ctx', ?_, hgoes⟩
  rw [← hrun, relationshipFacts, List.map_append, runCalls_append, ← foldlM_properties,
    Snapshot.visitOwnerProperties_eq hstart.stable.formed]
  simp only [ofStorage, ok_bind, runCalls_ite]
  rfl

theorem deleteNode_goes (hstart : Ready start) (h : Goes had start ctx) (id : NodeId) :
    DecidesTo (start.access.allowDelete = true) (deleteNode ctx start.staged id)
      (Goes (fun fact => had fact ∨ Removed (· = id) (fun _ => False) fact) start) := by
  have hguard := requireDelete_decides ctx
  rw [h.access] at hguard
  refine hguard.guards fun hallow => ?_
  obtain ⟨ctx', hrun, hgoes⟩ :=
    runCalls_gone hstart h hallow (mem_nodeFacts hstart.stable.formed)
  refine ⟨ctx', ?_, hgoes⟩
  rw [← hrun, nodeFacts, List.map_append, List.map_append, runCalls_append,
    Snapshot.visitOwnerProperties_eq hstart.stable.formed]
  simp only [runCalls_append, ← foldlM_properties, ofStorage, ok_bind, runCalls_ite]
  have hlabels : runCalls ctx (((start.staged.labels id).map fun label =>
      Fact.label (id, label)).map removal) = (start.staged.labels id).foldlM
        (fun ctx label => ctx.setLabelForDelete id label false) ctx := by
    unfold runCalls
    rw [List.foldlM_map, List.foldlM_map]
    rfl
  rw [hlabels]
  rfl

end Element

/-! ## 3. One target -/

section Target

variable (input : Snapshot) (allowDelete : Bool) (view : ResolvedGraphView) (detach : Bool)
  (T : RelationshipId → Prop)

/-- A relationship may be a target. -/
def RelationshipAccepted (id : RelationshipId) : Prop :=
  ∀ record, input.relationship id = some record →
    view.visibleRelationship input record = true ∧ allowDelete = true

/-- A node may be a target, beside the relationships that are. -/
def NodeAccepted (id : NodeId) : Prop :=
  view.visibleNode input id = true ∧ allowDelete = true ∧
    ∀ record, input.relationship record.id = some record →
      (record.source = id ∨ record.target = id) → ¬ T record.id →
        detach = true ∧ view.visibleRelationship input record = true

/-- The relationships that go with some nodes: the targets, and those of the nodes. -/
def Cascade (N : NodeId → Prop) (id : RelationshipId) : Prop :=
  T id ∨ ∃ record, input.relationship id = some record ∧ (N record.source ∨ N record.target)

variable {input allowDelete view detach T} {start ctx : MutationContext} {N : NodeId → Prop}
  {R : RelationshipId → Prop}

theorem relationship_absent (hconsistent : g.Consistent) {id : RelationshipId}
    (hid : g.relationships[id]? = none) {fact : Fact}
    (hfact : Removed (fun _ => False) (· = id) fact) : fact.read g = none := by
  cases fact with
  | node _ => exact hfact.elim
  | label _ => exact hfact.elim
  | relationship other =>
    obtain rfl : other = id := hfact
    exact hid
  | property slot =>
    obtain ⟨kind, owner, key⟩ := slot
    cases kind with
    | node => exact hfact.elim
    | relationship =>
      obtain rfl : owner = id := hfact
      refine Option.eq_none_iff_forall_ne_some.mpr fun value hvalue => ?_
      have howner : g.relationships[owner]?.isSome := hconsistent.owners _ value hvalue
      rw [hid] at howner
      cases howner

theorem deleteBoundRelationship_decides (hconsistent : start.staged.graph.Consistent)
    (h : Goes (Removed N R) start ctx) (record : RelationshipRecord) :
    DecidesTo (RelationshipAccepted start.staged start.access.allowDelete view record.id)
      (deleteBoundRelationship start.staged view ctx record)
      (Goes (Removed N fun id => R id ∨ id = record.id) start) := by
  have hunion : ∀ fact, (Removed N R fact ∨ Removed (fun _ => False) (· = record.id) fact) ↔
      Removed N (fun id => R id ∨ id = record.id) fact := fun fact =>
    (removed_or fact).trans (removed_congr (fun _ => or_iff_left not_false) (fun _ => Iff.rfl) fact)
  unfold deleteBoundRelationship
  cases hinput : start.staged.relationship record.id with
  | none =>
    have habsent : start.staged.graph.relationships[record.id]? = none := by
      rw [← Snapshot.relationship_eq]
      exact hinput
    have hgone : ctx.staged.relationship record.id = none := by
      rw [Snapshot.relationship_eq]
      exact h.clears.absent (k := .relationship record.id) habsent
    have haccepted : RelationshipAccepted start.staged start.access.allowDelete view record.id := by
      intro other hother
      rw [hinput] at hother
      cases hother
    simp only [hgone]
    refine decidesTo_ok haccepted (h.widen (fun fact hfact => (hunion fact).mp (.inl hfact))
      fun fact hfact => ?_)
    exact ((hunion fact).mpr hfact).imp_right (relationship_absent hconsistent habsent)
  | some present =>
    have haccepted : RelationshipAccepted start.staged start.access.allowDelete view record.id ↔
        view.visibleRelationship start.staged present = true ∧ start.access.allowDelete = true := by
      unfold RelationshipAccepted
      rw [hinput]
      exact ⟨fun hall => hall present rfl, fun hpresent other hother =>
        Option.some.inj hother ▸ hpresent⟩
    refine DecidesTo.congr ?_ haccepted.symm fun _ hpost => hpost
    by_cases hvisible : view.visibleRelationship start.staged present = true
    · have hpass : ((some present).any fun input =>
          !view.visibleRelationship start.staged input) = false := by
        show (!view.visibleRelationship start.staged present) = false
        rw [hvisible]
        rfl
      simp only [hpass, Bool.false_eq_true, if_false]
      cases hcurrent : ctx.staged.relationship record.id with
      | none =>
        -- an earlier target, so deletion is allowed
        have hpresent : (Fact.relationship record.id).read start.staged.graph ≠ none := by
          show start.staged.graph.relationships[record.id]? ≠ none
          rw [← Snapshot.relationship_eq, hinput]
          simp
        have hgone : R record.id := by
          by_contra hkept
          have hread := h.clears.kept (.relationship record.id) hkept
          rw [Snapshot.relationship_eq] at hcurrent
          exact hpresent (hread.symm.trans hcurrent)
        refine decidesTo_ok ⟨hvisible, h.allowed (.relationship record.id) hgone hpresent⟩
          (h.congr (removed_congr (fun _ => Iff.rfl) fun id => ⟨Or.inl, fun hid => ?_⟩))
        exact hid.elim (fun hold => hold) fun hnew => hnew ▸ hgone
      | some current =>
        have hid : current.id = record.id := h.ready.coupled.staged.keyed record.id current hcurrent
        have hdelete := deleteRelationship_goes h.ready (goes_refl h.ready) current
        rw [h.access, hid] at hdelete
        refine hdelete.congr (and_iff_right hvisible).symm fun ctx' hgoes => ?_
        refine (h.trans hgoes).congr fun fact => ?_
        rw [false_or]
        exact hunion fact
    · refine .inr ⟨fun hboth => hvisible hboth.1, _, if_pos ?_⟩
      simp [hvisible]

theorem requireVisibleDeleteNode_decides (h : Goes gone start ctx) (id : NodeId) :
    Decides (fun _ => True) (requireVisibleDeleteNode start.staged view ctx.staged id)
      (view.visibleNode start.staged id = true) := by
  unfold requireVisibleDeleteNode
  by_cases hnode : start.staged.nodeExists id = true
  · by_cases hvisible : view.visibleNode start.staged id = true
    · refine .inl ⟨hvisible, ?_⟩
      simp [hnode, hvisible]
    · refine .inr ⟨hvisible, _, trivial, if_pos ?_⟩
      simp [hnode, hvisible]
  · have hunseen : ¬ view.visibleNode start.staged id = true :=
      fun hvisible => hnode (ResolvedGraphView.visibleNode_exists hvisible)
    have habsent : ¬ ctx.staged.nodeExists id = true := by
      rw [Snapshot.nodeExists_eq, Bool.not_eq_true, Option.isSome_eq_false_iff,
        Option.isNone_iff_eq_none] at hnode ⊢
      exact h.clears.absent (k := .node id) hnode
    have hgone : ¬ view.visibleNode ctx.staged id = true :=
      fun hvisible => habsent (ResolvedGraphView.visibleNode_exists hvisible)
    refine .inr ⟨hunseen, _, trivial, (if_neg ?_).trans (if_pos ?_)⟩
    · simp [hnode]
    · simp [hnode, hgone]

theorem deleteIncident_decides {had : Fact → Prop} (h : Goes gone start ctx)
    {ctx' : MutationContext} (hhad : Goes had ctx ctx') (id : NodeId)
    (hrecord : start.staged.relationship record.id = some record) :
    DecidesTo (view.visibleRelationship start.staged record = true ∧ start.access.allowDelete = true)
      (deleteIncident start.staged view ctx.staged id ctx' record)
      (Goes (fun fact => had fact ∨ Removed (fun _ => False) (· = record.id) fact) ctx) := by
  have hdelete := deleteRelationship_goes h.ready hhad record
  rw [h.access] at hdelete
  unfold deleteIncident
  rw [hrecord]
  by_cases hvisible : view.visibleRelationship start.staged record = true
  · simp only [hvisible, Bool.not_true, Bool.false_eq_true, if_false]
    exact hdelete.congr (and_iff_right trivial).symm fun _ hpost => hpost
  · refine .inr ⟨fun hboth => hvisible hboth.1, _, if_pos ?_⟩
    simp [hvisible]

theorem among_append (had : List RelationshipRecord) (record : RelationshipRecord)
    (r : RelationshipId) : (∃ other ∈ had ++ [record], other.id = r) ↔
      (∃ other ∈ had, other.id = r) ∨ r = record.id := by
  constructor
  · intro hr
    obtain ⟨other, hother, hid⟩ := hr
    rcases List.mem_append.mp hother with hold | hnew
    · exact .inl ⟨other, hold, hid⟩
    · rw [List.mem_singleton.mp hnew] at hid
      exact .inr hid.symm
  · intro hr
    rcases hr with ⟨other, hother, hid⟩ | hid
    · exact ⟨other, List.mem_append_left _ hother, hid⟩
    · exact ⟨record, List.mem_append_right _ (List.mem_singleton_self _), hid.symm⟩

theorem deleteIncidentRelationships_decides (h : Goes gone start ctx) (id : NodeId) : DecidesTo
      (∀ record ∈ allIncident ctx.staged id, detach = true ∧
        view.visibleRelationship start.staged record = true ∧ start.access.allowDelete = true)
      (deleteIncidentRelationships start.staged view detach ctx ctx.staged id)
      (Goes (Removed (fun _ => False) fun r => ∃ record ∈ allIncident ctx.staged id, record.id = r)
        ctx) := by
  have hinput : ∀ record ∈ allIncident ctx.staged id,
      start.staged.relationship record.id = some record := by
    intro record hrecord
    have hread := (h.ready.stable.mem_scanIncident.mp hrecord).1
    rw [Snapshot.relationship_eq]
    exact (h.clears.left (k := .relationship record.id) hread).1
  have hstep : ∀ record ∈ allIncident ctx.staged id, ∀ had ctx',
      (∀ other ∈ had, view.visibleRelationship start.staged other = true ∧
        start.access.allowDelete = true) →
      Goes (Removed (fun _ => False) fun r => ∃ other ∈ had, other.id = r) ctx ctx' →
      DecidesTo (view.visibleRelationship start.staged record = true ∧
          start.access.allowDelete = true)
        (deleteIncident start.staged view ctx.staged id ctx' record)
        (Goes (Removed (fun _ => False) fun r => ∃ other ∈ had ++ [record], other.id = r) ctx) := by
    intro record hrecord had ctx' _ hgoes
    refine (deleteIncident_decides h hgoes id (hinput record hrecord)).congr Iff.rfl
      fun ctx'' hpost => hpost.congr fun fact => ?_
    exact (removed_or fact).trans (removed_congr (fun _ => or_iff_left not_false)
      (fun r => (among_append had record r).symm) fact)
  have hnone : Goes (Removed (fun _ => False) fun r => ∃ other ∈ ([] : List RelationshipRecord),
      other.id = r) ctx ctx := by
    refine (goes_refl h.ready).congr fun fact => ⟨False.elim, fun hfact => not_removed fact ?_⟩
    exact (removed_congr (fun _ => Iff.rfl) (fun r => by simp) fact).mp hfact
  have hloop := DecidesTo.foldlM hstep [] (fun other hother => absurd hother List.not_mem_nil) hnone
  unfold deleteIncidentRelationships
  by_cases hempty : allIncident ctx.staged id = []
  · simp only [hempty, List.isEmpty_nil, Bool.not_true, Bool.false_and, Bool.false_eq_true,
      if_false] at hloop ⊢
    refine hloop.congr ?_ fun _ hpost => hpost
    simp
  · have hsome : (allIncident ctx.staged id).isEmpty = false := by
      rw [List.isEmpty_eq_false_iff]
      exact hempty
    cases detach with
    | false =>
      refine .inr ⟨fun hall => ?_, _, if_pos (by rw [hsome]; rfl)⟩
      obtain ⟨record, hrecord⟩ := List.exists_mem_of_ne_nil _ hempty
      cases (hall record hrecord).1
    | true =>
      simp only [hsome, Bool.not_false, Bool.not_true, Bool.and_false, Bool.false_eq_true, if_false]
      exact hloop.congr (forall₂_congr fun _ _ => (and_iff_right trivial).symm) fun _ hpost => hpost

theorem mem_allIncident (h : Goes (Removed N R) start ctx) : record ∈ allIncident ctx.staged id ↔
      start.staged.relationship record.id = some record ∧
        (record.source = id ∨ record.target = id) ∧ ¬ R record.id := by
  have hscan : record ∈ allIncident ctx.staged id ↔ _ := h.ready.stable.mem_scanIncident
  rw [hscan, Snapshot.relationship_eq]
  constructor
  · intro hboth
    obtain ⟨hread, hend⟩ := hboth
    obtain ⟨hold, hkept⟩ := h.clears.left (k := .relationship record.id) hread
    exact ⟨hold, hend, hkept⟩
  · intro hall
    obtain ⟨hold, hend, hkept⟩ := hall
    have hread := h.clears.kept (.relationship record.id) hkept
    exact ⟨hread.trans hold, hend⟩

/-- What goes with one more node. -/
theorem cascade_insert (hstart : Ready start)
    (h : Goes (Removed N (Cascade start.staged T N)) start ctx) (id : NodeId)
    (r : RelationshipId) : Cascade start.staged T (fun n => N n ∨ n = id) r ↔
      Cascade start.staged T N r ∨ ∃ record ∈ allIncident ctx.staged id, record.id = r := by
  constructor
  · intro hr
    by_cases hold : Cascade start.staged T N r
    · exact .inl hold
    · rcases hr with htarget | ⟨record, hrecord, hends⟩
      · exact absurd (.inl htarget) hold
      · obtain rfl : record.id = r := hstart.coupled.staged.keyed r record hrecord
        have hnew : record.source = id ∨ record.target = id := by
          refine hends.imp (fun hs => hs.resolve_left fun hN => hold ?_)
            fun ht => ht.resolve_left fun hN => hold ?_
          · exact .inr ⟨record, hrecord, .inl hN⟩
          · exact .inr ⟨record, hrecord, .inr hN⟩
        exact .inr ⟨record, (mem_allIncident h).mpr ⟨hrecord, hnew, hold⟩, rfl⟩
  · intro hr
    rcases hr with (htarget | ⟨record, hrecord, hends⟩) | ⟨record, hin, rfl⟩
    · exact .inl htarget
    · exact .inr ⟨record, hrecord, hends.imp .inl .inl⟩
    · obtain ⟨hrecord, hend, _⟩ := (mem_allIncident h).mp hin
      exact .inr ⟨record, hrecord, hend.imp .inr .inr⟩

theorem node_had (h : Goes (Removed N R) start ctx) (hbefore : start.staged.nodeExists id = true)
    (hafter : ¬ ctx.staged.nodeExists id = true) : N id := by
  by_contra hkept
  have hread : ctx.staged.graph.nodes[id]? = start.staged.graph.nodes[id]? :=
    h.clears.kept (.node id) hkept
  rw [Snapshot.nodeExists_eq] at hbefore hafter
  rw [hread] at hafter
  exact hafter hbefore

theorem nodeAccepted_iff
    (hhad : ∀ n, N n → NodeAccepted start.staged start.access.allowDelete view detach T n)
    (h : Goes (Removed N (Cascade start.staged T N)) start ctx) (id : NodeId) :
    NodeAccepted start.staged start.access.allowDelete view detach T id ↔
      view.visibleNode start.staged id = true ∧ (ctx.staged.nodeExists id = true →
        (∀ record ∈ allIncident ctx.staged id, detach = true ∧
          view.visibleRelationship start.staged record = true ∧ start.access.allowDelete = true) ∧
        start.access.allowDelete = true) := by
  constructor
  · intro haccepted
    obtain ⟨hvisible, hallow, hincident⟩ := haccepted
    refine ⟨hvisible, fun _ => ⟨fun record hin => ?_, hallow⟩⟩
    obtain ⟨hrecord, hend, hkept⟩ := (mem_allIncident h).mp hin
    obtain ⟨hdetach, hseen⟩ := hincident record hrecord hend fun htarget => hkept (.inl htarget)
    exact ⟨hdetach, hseen, hallow⟩
  · intro hboth
    obtain ⟨hvisible, hrest⟩ := hboth
    by_cases hexists : ctx.staged.nodeExists id = true
    · obtain ⟨hincident, hallow⟩ := hrest hexists
      refine ⟨hvisible, hallow, fun record hrecord hend htarget => ?_⟩
      by_cases hgone : Cascade start.staged T N record.id
      · -- the relationship went with a node that was had
        obtain ⟨other, hother, hends⟩ := hgone.resolve_left htarget
        obtain rfl : other = record := Option.some.inj (hother.symm.trans hrecord)
        rcases hends with hN | hN
        · exact (hhad _ hN).2.2 other hrecord (.inl rfl) htarget
        · exact (hhad _ hN).2.2 other hrecord (.inr rfl) htarget
      · obtain ⟨hdetach, hseen, _⟩ :=
          hincident record ((mem_allIncident h).mpr ⟨hrecord, hend, hgone⟩)
        exact ⟨hdetach, hseen⟩
    · exact hhad id (node_had h (ResolvedGraphView.visibleNode_exists hvisible) hexists)

/-- **A node that is a target.** -/
theorem deleteBoundNode_decides (hstart : Ready start)
    (hhad : ∀ n, N n → NodeAccepted start.staged start.access.allowDelete view detach T n)
    (h : Goes (Removed N (Cascade start.staged T N)) start ctx) (id : NodeId) :
    DecidesTo (NodeAccepted start.staged start.access.allowDelete view detach T id)
      (deleteBoundNode start.staged view detach ctx id)
      (Goes (Removed (fun n => N n ∨ n = id) (Cascade start.staged T fun n => N n ∨ n = id))
        start) := by
  have hcheck : Decides (fun _ => True) (requireVisibleDeleteNode start.staged view ctx.staged id)
      (view.visibleNode start.staged id = true) := requireVisibleDeleteNode_decides h id
  refine (hcheck.before fun hvisible => ?_).congr (nodeAccepted_iff hhad h id).symm
    fun _ hpost => hpost
  by_cases hexists : ctx.staged.nodeExists id = true
  · have hincident : DecidesTo
        (∀ record ∈ allIncident ctx.staged id, detach = true ∧
          view.visibleRelationship start.staged record = true ∧ start.access.allowDelete = true)
        (deleteIncidentRelationships start.staged view detach ctx ctx.staged id) _ :=
      deleteIncidentRelationships_decides h id
    have hdelete := hincident.seq fun _ ctx' hgoes => deleteNode_goes h.ready hgoes id
    rw [h.access] at hdelete
    simp only [hexists, Bool.not_true, Bool.false_eq_true, if_false]
    refine hdelete.congr ⟨fun hboth _ => hboth, fun himp => himp trivial⟩ fun ctx' hpost => ?_
    refine (h.trans hpost).congr fun fact => ?_
    rw [removed_or, removed_or]
    exact removed_congr (fun n => by rw [false_or])
      (fun r => (by rw [or_false]; exact (cascade_insert hstart h id r).symm)) fact
  · have hN : N id := node_had h (ResolvedGraphView.visibleNode_exists hvisible) hexists
    simp only [hexists, Bool.not_false, if_true]
    refine decidesTo_ok (fun hyes => absurd hyes (by decide)) (h.congr fun fact => ?_)
    have hsame : (fun n => N n ∨ n = id) = N :=
      funext fun n => propext ⟨fun hn => hn.elim (fun hold => hold) fun hnew => hnew ▸ hN, .inl⟩
    rw [hsame]

end Target

/-! ## 4. The targets of a clause -/

section Targets

variable {V : Type}

/-- The relationships a value stands for, in the pass over relationships. -/
def valueRelationships : Option (BindingValue V) → List RelationshipRecord
  | some (.relationship record) => [record]
  | some (.path _ relationships) => relationships
  | _ => []

/-- The nodes a value stands for, in the pass over nodes. -/
def valueNodes : Option (BindingValue V) → List NodeId
  | some (.node id) => [id]
  | some (.path nodes _) => nodes
  | _ => []

variable (rows : List (BindingRow V)) (names : List Text)

def targetValues : List (Option (BindingValue V)) :=
  rows.flatMap fun row => names.map fun name => row.values[name]?

def targetRelationships : List RelationshipRecord :=
  (targetValues rows names).flatMap valueRelationships

def targetNodes : List NodeId := (targetValues rows names).flatMap valueNodes

variable {rows names} {start : MutationContext} {view : ResolvedGraphView} {detach : Bool}

theorem validateDeleteValues_decides : Decides (fun _ => True) (validateDeleteValues rows names)
    (∀ value ∈ targetValues rows names, isScalar value = false) := by
  have hany : (rows.any fun row => names.any fun name => isScalar row.values[name]?) =
      (targetValues rows names).any isScalar := by
    unfold targetValues
    rw [List.any_flatMap]
    simp only [List.any_map]
    rfl
  unfold validateDeleteValues refuseWhen
  rw [hany]
  by_cases hscalar : (targetValues rows names).any isScalar = true
  · refine .inr ⟨fun hall => ?_, _, trivial, if_pos hscalar⟩
    obtain ⟨value, hin, hvalue⟩ := List.any_eq_true.mp hscalar
    rw [hall value hin] at hvalue
    cases hvalue
  · refine .inl ⟨fun value hin => ?_, if_neg hscalar⟩
    by_contra hvalue
    exact hscalar (List.any_eq_true.mpr ⟨value, hin, (Bool.not_eq_false _).mp hvalue⟩)

theorem foldlM_values {α : Type} {parts : Option (BindingValue V) → List α}
    {step : MutationContext → α → QueryResult MutationContext}
    {each : MutationContext → Option (BindingValue V) → QueryResult MutationContext}
    (heach : ∀ ctx, ∀ value ∈ targetValues rows names,
      each ctx value = (parts value).foldlM step ctx) :
    rows.foldlM (fun ctx row => names.foldlM (fun ctx name => each ctx row.values[name]?) ctx) ctx =
      ((targetValues rows names).flatMap parts).foldlM step ctx := by
  rw [list_foldlM_flatMap, ← list_foldlM_congr ctx heach]
  unfold targetValues
  rw [list_foldlM_flatMap]
  simp only [List.foldlM_map]

theorem applyDeleteRelationships_eq
    (h : ∀ value ∈ targetValues rows names, isScalar value = false) :
    applyDeleteRelationships input view rows names ctx =
      (targetRelationships rows names).foldlM (deleteBoundRelationship input view) ctx := by
  refine foldlM_values fun ctx value hvalue => ?_
  have hscalar := h value hvalue
  cases value with
  | none => rfl
  | some value =>
    cases value with
    | node _ => rfl
    | relationship record => exact (bind_pure _).symm
    | path _ _ => rfl
    | scalar _ => cases hscalar
    | null => rfl

theorem applyDeleteNodes_eq (h : ∀ value ∈ targetValues rows names, isScalar value = false) :
    applyDeleteNodes input view detach rows names ctx =
      (targetNodes rows names).foldlM (deleteBoundNode input view detach) ctx := by
  refine foldlM_values fun ctx value hvalue => ?_
  have hscalar := h value hvalue
  cases value with
  | none => rfl
  | some value =>
    cases value with
    | node id => exact (bind_pure _).symm
    | relationship _ => rfl
    | path _ _ => rfl
    | scalar _ => cases hscalar
    | null => rfl

/-- **A clause may delete its targets.** -/
def Deletable (input : Snapshot) (allowDelete : Bool) (view : ResolvedGraphView) (detach : Bool)
    (rows : List (BindingRow V)) (names : List Text) : Prop :=
  (∀ value ∈ targetValues rows names, isScalar value = false) ∧
    (∀ record ∈ targetRelationships rows names,
      RelationshipAccepted input allowDelete view record.id) ∧
    ∀ id ∈ targetNodes rows names, NodeAccepted input allowDelete view detach
      (fun r => ∃ record ∈ targetRelationships rows names, record.id = r) id

/-- **What a clause takes out**: the targets, and the relationships of target nodes. -/
def Deleted (input : Snapshot) (rows : List (BindingRow V)) (names : List Text) : Fact → Prop :=
  Removed (· ∈ targetNodes rows names)
    (Cascade input (fun r => ∃ record ∈ targetRelationships rows names, record.id = r)
      (· ∈ targetNodes rows names))

theorem deleteRelationships_decide (hstart : Ready start)
    (hconsistent : start.staged.graph.Consistent) (targets : List RelationshipRecord) :
    DecidesTo (∀ record ∈ targets,
        RelationshipAccepted start.staged start.access.allowDelete view record.id)
      (targets.foldlM (deleteBoundRelationship start.staged view) start)
      (Goes (Removed (fun _ => False) fun r => ∃ record ∈ targets, record.id = r) start) := by
  have hstep : ∀ record ∈ targets, ∀ had ctx,
      (∀ other ∈ had, RelationshipAccepted start.staged start.access.allowDelete view other.id) →
      Goes (Removed (fun _ => False) fun r => ∃ other ∈ had, other.id = r) start ctx →
      DecidesTo (RelationshipAccepted start.staged start.access.allowDelete view record.id)
        (deleteBoundRelationship start.staged view ctx record)
        (Goes (Removed (fun _ => False) fun r => ∃ other ∈ had ++ [record], other.id = r)
          start) := by
    intro record _ had ctx _ hgoes
    refine (deleteBoundRelationship_decides hconsistent hgoes record).congr Iff.rfl
      fun ctx' hpost => hpost.congr (removed_congr (fun _ => Iff.rfl) fun r => ?_)
    exact (among_append had record r).symm
  have hnone : Goes (Removed (fun _ => False) fun r => ∃ other ∈ ([] : List RelationshipRecord),
      other.id = r) start start := by
    refine (goes_refl hstart).congr fun fact => ⟨False.elim, fun hfact => not_removed fact ?_⟩
    exact (removed_congr (fun _ => Iff.rfl) (fun r => by simp) fact).mp hfact
  exact DecidesTo.foldlM hstep [] (fun other hother => absurd hother List.not_mem_nil) hnone

theorem deleteNodes_decide {T : RelationshipId → Prop} (hstart : Ready start)
    (h : Goes (Removed (fun _ => False) T) start ctx) (targets : List NodeId) :
    DecidesTo (∀ id ∈ targets, NodeAccepted start.staged start.access.allowDelete view detach T id)
      (targets.foldlM (deleteBoundNode start.staged view detach) ctx)
      (Goes (Removed (· ∈ targets) (Cascade start.staged T (· ∈ targets))) start) := by
  have hstep : ∀ id ∈ targets, ∀ had ctx,
      (∀ n ∈ had, NodeAccepted start.staged start.access.allowDelete view detach T n) →
      Goes (Removed (· ∈ had) (Cascade start.staged T (· ∈ had))) start ctx →
      DecidesTo (NodeAccepted start.staged start.access.allowDelete view detach T id)
        (deleteBoundNode start.staged view detach ctx id)
        (Goes (Removed (· ∈ had ++ [id]) (Cascade start.staged T (· ∈ had ++ [id]))) start) := by
    intro id _ had ctx hhad hgoes
    have hmem : (fun n => n ∈ had ++ [id]) = fun n => n ∈ had ∨ n = id := by
      funext n
      rw [List.mem_append, List.mem_singleton]
    rw [hmem]
    exact deleteBoundNode_decides hstart hhad hgoes id
  have hnone : Goes (Removed (· ∈ ([] : List NodeId))
      (Cascade start.staged T (· ∈ ([] : List NodeId)))) start ctx := by
    refine h.congr (removed_congr (fun n => by simp) fun r => ?_)
    unfold Cascade
    simp
  exact DecidesTo.foldlM hstep [] (fun n hn => absurd hn List.not_mem_nil) hnone

/-- **A clause is accepted where it may delete its targets.** -/
theorem applyDelete_decides (hstart : Ready start) (hconsistent : start.staged.graph.Consistent)
    (view : ResolvedGraphView) (detach : Bool) (rows : List (BindingRow V)) (names : List Text) :
    DecidesTo (Deletable start.staged start.access.allowDelete view detach rows names)
      (executeDeleteClause start view detach rows names)
      (Goes (Deleted start.staged rows names) start) := by
  refine validateDeleteValues_decides.before fun hscalar => ?_
  rw [applyDeleteRelationships_eq hscalar]
  simp only [applyDeleteNodes_eq hscalar]
  exact (deleteRelationships_decide hstart hconsistent _).seq fun _ ctx hgoes =>
    deleteNodes_decide hstart hgoes _

/-! ## 5. What a clause leaves -/

/-- **What is left refers to nothing that is gone.** -/
theorem consistent_deleted (hconsistent : input.graph.Consistent) {rows : List (BindingRow V)}
    (h : Clears Fact.read (Deleted input rows names) input.graph g) : g.Consistent := by
  have hnode : ∀ id : NodeId, input.graph.nodes[id]?.isSome → id ∉ targetNodes rows names →
      g.nodes[id]?.isSome := by
    intro id hid hkept
    have hread : g.nodes[id]? = input.graph.nodes[id]? := h.kept (.node id) hkept
    rw [hread]
    exact hid
  refine ⟨fun row hrow => ?_, fun id record hrecord => ?_, fun slot value hvalue => ?_⟩
  · obtain ⟨v, hv⟩ := Option.isSome_iff_exists.mp hrow
    obtain ⟨hold, hkept⟩ := h.left (k := .label row) hv
    have hsome : input.graph.labels[row]?.isSome := Option.isSome_iff_exists.mpr ⟨v, hold⟩
    exact hnode row.1 (hconsistent.labels row hsome) hkept
  · obtain ⟨hold, hkept⟩ := h.left (k := .relationship id) hrecord
    obtain ⟨hsource, htarget⟩ := hconsistent.endpoints id record hold
    have hpresent : input.relationship id = some record := by
      rw [Snapshot.relationship_eq]
      exact hold
    refine ⟨hnode _ hsource fun hin => hkept ?_, hnode _ htarget fun hin => hkept ?_⟩
    · exact .inr ⟨record, hpresent, .inl hin⟩
    · exact .inr ⟨record, hpresent, .inr hin⟩
  · obtain ⟨hold, hkept⟩ := h.left (k := .property slot) hvalue
    have howner := hconsistent.owners slot value hold
    obtain ⟨kind, owner, key⟩ := slot
    cases kind with
    | node => exact hnode owner howner hkept
    | relationship =>
      have hread : g.relationships[owner]? = input.graph.relationships[owner]? :=
        h.kept (.relationship owner) hkept
      show g.relationships[owner]?.isSome
      rw [hread]
      exact howner

/-- A target node has a relationship that is not a target. -/
def Dangling (input : Snapshot) (rows : List (BindingRow V)) (names : List Text) : Prop :=
  ∃ id ∈ targetNodes rows names, ∃ record, input.relationship record.id = some record ∧
    (record.source = id ∨ record.target = id) ∧
    ¬ ∃ target ∈ targetRelationships rows names, target.id = record.id

/-- A target, or a relationship that would go with one, is not to be seen or not to be deleted. -/
def Barred (input : Snapshot) (allowDelete : Bool) (view : ResolvedGraphView)
    (rows : List (BindingRow V)) (names : List Text) : Prop :=
  (∃ target ∈ targetRelationships rows names, ∃ record, input.relationship target.id = some record ∧
      (view.visibleRelationship input record = false ∨ allowDelete = false)) ∨
    ∃ id ∈ targetNodes rows names, view.visibleNode input id = false ∨ allowDelete = false ∨
      ∃ record, input.relationship record.id = some record ∧
        (record.source = id ∨ record.target = id) ∧ view.visibleRelationship input record = false ∧
        ¬ ∃ target ∈ targetRelationships rows names, target.id = record.id

/-- **A clause fails for one of three reasons.** -/
theorem not_deletable_iff {allowDelete : Bool} {detach : Bool} {rows : List (BindingRow V)} :
    ¬ Deletable input allowDelete view detach rows names ↔
      (∃ value ∈ targetValues rows names, isScalar value = true) ∨
        Barred input allowDelete view rows names ∨
        (detach = false ∧ Dangling input rows names) := by
  constructor
  · intro hrefused
    by_contra hnone
    refine hrefused ⟨fun value hin => ?_, fun target hin record hrecord => ⟨?_, ?_⟩,
      fun id hin => ⟨?_, ?_, fun record hrecord hend htarget => ⟨?_, ?_⟩⟩⟩
    · exact Bool.not_eq_true _ ▸ fun hvalue => hnone (.inl ⟨value, hin, hvalue⟩)
    · refine Bool.not_eq_false _ ▸ fun hunseen => hnone (.inr (.inl (.inl ?_)))
      exact ⟨target, hin, record, hrecord, .inl hunseen⟩
    · refine Bool.not_eq_false _ ▸ fun hdenied => hnone (.inr (.inl (.inl ?_)))
      exact ⟨target, hin, record, hrecord, .inr hdenied⟩
    · refine Bool.not_eq_false _ ▸ fun hunseen => hnone (.inr (.inl (.inr ?_)))
      exact ⟨id, hin, .inl hunseen⟩
    · refine Bool.not_eq_false _ ▸ fun hdenied => hnone (.inr (.inl (.inr ?_)))
      exact ⟨id, hin, .inr (.inl hdenied)⟩
    · refine Bool.not_eq_false _ ▸ fun hplain => hnone (.inr (.inr ⟨hplain, ?_⟩))
      exact ⟨id, hin, record, hrecord, hend, htarget⟩
    · refine Bool.not_eq_false _ ▸ fun hunseen => hnone (.inr (.inl (.inr ?_)))
      exact ⟨id, hin, .inr (.inr ⟨record, hrecord, hend, hunseen, htarget⟩)⟩
  · intro hreason hdeletable
    obtain ⟨hscalars, hrelationships, hnodes⟩ := hdeletable
    rcases hreason with ⟨value, hin, hvalue⟩ | hbarred | ⟨hplain, id, hin, record, hrecord, hend, hno⟩
    · rw [hscalars value hin] at hvalue
      cases hvalue
    · rcases hbarred with ⟨target, hin, record, hrecord, hbar⟩ | ⟨id, hin, hbar⟩
      · obtain ⟨hvisible, hallow⟩ := hrelationships target hin record hrecord
        rw [hvisible, hallow] at hbar
        simp at hbar
      · obtain ⟨hvisible, hallow, hincident⟩ := hnodes id hin
        rw [hvisible, hallow] at hbar
        rcases hbar with hbar | hbar | ⟨record, hrecord, hend, hunseen, hno⟩
        · cases hbar
        · cases hbar
        · rw [(hincident record hrecord hend hno).2] at hunseen
          cases hunseen
    · rw [((hnodes id hin).2.2 record hrecord hend hno).1] at hplain
      cases hplain

theorem not_barred (hconsistent : input.graph.Consistent) (hfull : view.isFullGraph = true)
    {rows : List (BindingRow V)}
    (hthere : ∀ id ∈ targetNodes rows names, input.nodeExists id = true) :
    ¬ Barred input true view rows names := by
  have hseen : ∀ (id : RelationshipId) record, input.relationship id = some record →
      view.visibleRelationship input record = true := by
    intro id record hrecord
    rw [Snapshot.relationship_eq] at hrecord
    obtain ⟨hsource, htarget⟩ := hconsistent.endpoints id record hrecord
    unfold ResolvedGraphView.visibleRelationship
    rw [ResolvedGraphView.visibleNode_full hfull, ResolvedGraphView.visibleNode_full hfull,
      Snapshot.nodeExists_eq, Snapshot.nodeExists_eq, hsource, htarget]
    rfl
  intro hbarred
  rcases hbarred with ⟨target, _, record, hrecord, hbar⟩ | ⟨id, hin, hbar⟩
  · rw [hseen _ record hrecord] at hbar
    simp at hbar
  · rw [ResolvedGraphView.visibleNode_full hfull, hthere id hin] at hbar
    rcases hbar with hbar | hbar | ⟨record, hrecord, _, hunseen, _⟩
    · cases hbar
    · cases hbar
    · rw [hseen _ record hrecord] at hunseen
      cases hunseen

/-- The same targets, in another order or more often. -/
def SameTargets (rows rows' : List (BindingRow V)) (names names' : List Text) : Prop :=
  ∀ value, value ∈ targetValues rows names ↔ value ∈ targetValues rows' names'

section Same

variable {rows rows' : List (BindingRow V)} {names names' : List Text}

theorem targetNodes_same (h : SameTargets rows rows' names names') (id : NodeId) :
    id ∈ targetNodes rows names ↔ id ∈ targetNodes rows' names' := by
  unfold targetNodes
  simp only [List.mem_flatMap, h _]

theorem targetRelationships_same (h : SameTargets rows rows' names names')
    (record : RelationshipRecord) :
    record ∈ targetRelationships rows names ↔ record ∈ targetRelationships rows' names' := by
  unfold targetRelationships
  simp only [List.mem_flatMap, h _]

/-- **The same targets are accepted.** -/
theorem deletable_same {allowDelete : Bool} {detach : Bool}
    (h : SameTargets rows rows' names names') : Deletable input allowDelete view detach rows names ↔
      Deletable input allowDelete view detach rows' names' := by
  unfold Deletable
  simp only [targetNodes_same h, targetRelationships_same h, h _]

/-- **The same targets take out the same.** -/
theorem deleted_same (h : SameTargets rows rows' names names') :
    Deleted input rows names = Deleted input rows' names' := by
  unfold Deleted
  simp only [targetNodes_same h, targetRelationships_same h]

end Same

end Targets

/-! ## 6. The clause as a whole -/

/-- **When a clause is accepted, and what it leaves.** It fails exactly where a target is a scalar,
    something is barred by the view or the policy, or a plain `DELETE` would leave a relationship
    without an end; then the branch is as it was. Otherwise the graph is what it was less the
    targets and the relationships of target nodes, refers to nothing missing, and is what the branch
    shows. The same targets in any order, and any number of times, give the same. -/
theorem delete_exact {V : Type} {ctx : MutationContext} (hready : Ready ctx)
    (hconsistent : ctx.staged.graph.Consistent) (view : ResolvedGraphView) (detach : Bool)
    (rows : List (BindingRow V)) (names : List Text) :
    ((∃ e, executeDeleteClause ctx view detach rows names = .error e) ↔
      (∃ value ∈ targetValues rows names, isScalar value = true) ∨
        Barred ctx.staged ctx.access.allowDelete view rows names ∨
        (detach = false ∧ Dangling ctx.staged rows names)) ∧
    (view.isFullGraph = true → ctx.access.allowDelete = true →
      (∀ id ∈ targetNodes rows names, ctx.staged.nodeExists id = true) →
      (∀ value ∈ targetValues rows names, isScalar value = false) →
      ((∃ e, executeDeleteClause ctx view detach rows names = .error e) ↔
        detach = false ∧ Dangling ctx.staged rows names)) ∧
    (∀ e, executeDeleteClause ctx view detach rows names = .error e →
      branchAfter ctx.base (finishWrite (executeDeleteClause ctx view detach rows names)) =
        ctx.base) ∧
    (∀ ctx', executeDeleteClause ctx view detach rows names = .ok ctx' →
      Clears Fact.read (Deleted ctx.staged rows names) ctx.staged.graph ctx'.staged.graph ∧
      (detach = false → ∀ id, ctx.staged.relationship id ≠ none →
        Deleted ctx.staged rows names (.relationship id) →
          ∃ target ∈ targetRelationships rows names, target.id = id) ∧
      ctx'.staged.graph.Consistent ∧ Ready ctx' ∧
      Snapshot.SameView
        (branchAfter ctx.base (finishWrite (executeDeleteClause ctx view detach rows names)))
        ctx'.staged) ∧
    (∀ rows' names', SameTargets rows rows' names names' →
      ((∃ ctx', executeDeleteClause ctx view detach rows names = .ok ctx') ↔
        ∃ ctx', executeDeleteClause ctx view detach rows' names' = .ok ctx') ∧
      ∀ ctx₁ ctx₂, executeDeleteClause ctx view detach rows names = .ok ctx₁ →
        executeDeleteClause ctx view detach rows' names' = .ok ctx₂ →
        ctx₁.staged.graph = ctx₂.staged.graph) := by
  have hdecides : ∀ rows names, DecidesTo
      (Deletable ctx.staged ctx.access.allowDelete view detach rows names)
      (executeDeleteClause (V := V) ctx view detach rows names)
      (Goes (Deleted ctx.staged rows names) ctx) :=
    applyDelete_decides hready hconsistent view detach
  have hfails := (hdecides rows names).fails.trans not_deletable_iff
  refine ⟨hfails, fun hfull hallow hthere hscalars => ?_, fun e he => ?_, fun ctx' hrun => ?_,
    fun rows' names' hsame => ⟨?_, ?_⟩⟩
  · have hscalar : ¬ ∃ value ∈ targetValues rows names, isScalar value = true := by
      intro hsome
      obtain ⟨value, hin, hvalue⟩ := hsome
      rw [hscalars value hin] at hvalue
      cases hvalue
    have hbarred := not_barred hconsistent hfull hthere
    rw [hallow] at hfails
    rw [hfails, or_iff_right hscalar, or_iff_right hbarred]
  · rw [he]
    rfl
  · have hgoes := (hdecides rows names).ends hrun
    refine ⟨hgoes.clears, fun hplain id hpresent hgone => ?_,
      consistent_deleted hconsistent hgoes.clears, hgoes.ready, ?_⟩
    · obtain ⟨_, _, hnodes⟩ := (hdecides rows names).succeeds.mp ⟨ctx', hrun⟩
      rcases hgone with htarget | ⟨record, hrecord, hends⟩
      · exact htarget
      · obtain rfl : record.id = id := hready.coupled.staged.keyed id record hrecord
        by_contra hno
        have hdetach : detach = true := by
          rcases hends with hin | hin
          · exact ((hnodes _ hin).2.2 record hrecord (.inl rfl) hno).1
          · exact ((hnodes _ hin).2.2 record hrecord (.inr rfl) hno).1
        rw [hplain] at hdetach
        cases hdetach
    · obtain ⟨layer, hlayer⟩ := coupled_layer_total hgoes.ready.coupled
      have hfinish : finishWrite (.ok ctx') = .ok layer := hlayer
      rw [hrun, hfinish, ← hgoes.base]
      exact coupled_sameView hgoes.ready.coupled hlayer
  · rw [(hdecides rows names).succeeds, (hdecides rows' names').succeeds]
    exact deletable_same hsame
  · intro ctx₁ ctx₂ hrun₁ hrun₂
    have hgoes₁ := (hdecides rows names).ends hrun₁
    have hgoes₂ := (hdecides rows' names').ends hrun₂
    rw [deleted_same hsame] at hgoes₁
    exact Fact.graph_ext (hgoes₁.clears.same hgoes₂.clears)

/-- Two nodes, the first with a label and a loop that has a property, and a relationship between
    them. -/
def loopGraph : GraphState where
  nodes := ((∅ : ExtTreeMap NodeId Unit).insert 1 ()).insert 2 ()
  labels := (∅ : ExtTreeMap (NodeId × LabelId) Unit).insert (1, 3) ()
  relationships := ((∅ : ExtTreeMap RelationshipId RelationshipRecord).insert 5 ⟨5, 1, 7, 1⟩).insert
    6 ⟨6, 1, 7, 2⟩
  properties := (∅ : ExtTreeMap PropertySlot PropertyValue).insert (.relationship, 5, 9) (.integer 4)

/-- A statement that starts on a graph. -/
def statementOn (g : GraphState) : MutationContext :=
  .new { checkpoint := some g } {} fun _ => none

theorem ready_statementOn
    (hkeyed : ∀ (id : RelationshipId) record, g.relationships[id]? = some record →
      record.id = id ∧ record.Positive)
    (hvalues : ∀ (slot : PropertySlot) value, g.properties[slot]? = some value →
      ∃ bytes, value.canonicalBytes = .ok bytes)
    (hpositive : ∀ fact : Fact, fact.read g ≠ none → fact.Positive) :
    Ready (statementOn g) ∧ (statementOn g).staged.graph = g := by
  have hgraph : (statementOn g).staged.graph = g := by
    show g.apply ({} : Overlay).layer = g
    refine GraphState.ext_facts (fun id => ?_) (fun row => ?_) (fun id => ?_) fun slot => ?_
    · rw [GraphState.nodes_apply]
      simp [Overlay.layer]
    · rw [GraphState.labels_apply]
      simp [Overlay.layer]
    · rw [GraphState.relationships_apply]
      simp [Overlay.layer]
    · rw [GraphState.properties_apply]
      simp [Overlay.layer]
  have hrelationship : ∀ (id : RelationshipId) record,
      (statementOn g).staged.relationship id = some record →
        g.relationships[id]? = some record := by
    intro id record hrecord
    exact hrecord
  refine ⟨⟨coupled_new ⟨fun id record hrecord => ?_, fun id record hrecord => ?_,
    fun slot value hvalue => ?_⟩ _ _, ⟨⟨?_, ?_, ?_, ?_, ?_⟩, ?_⟩, ?_⟩, hgraph⟩
  · exact (hkeyed id record (hrelationship id record hrecord)).1
  · exact (hkeyed id record (hrelationship id record hrecord)).2
  · refine hvalues slot value ?_
    exact hvalue
  · intro row op hop
    simp [statementOn, MutationContext.new] at hop
  · intro id delta hdelta
    simp [statementOn, MutationContext.new] at hdelta
  · intro slot delta hdelta
    simp [statementOn, MutationContext.new] at hdelta
  · intro slot delta hdelta
    simp [statementOn, MutationContext.new] at hdelta
  · intro id record hrecord
    exact (hkeyed id record hrecord).1
  · intro id record delta _ hdelta
    simp [statementOn, MutationContext.new] at hdelta
  · exact hpositive

theorem loopGraph_relationship {id : RelationshipId}
    (h : loopGraph.relationships[id]? = some record) :
    record.id = id ∧ (record = ⟨5, 1, 7, 1⟩ ∨ record = ⟨6, 1, 7, 2⟩) := by
  unfold loopGraph at h
  rw [lookup_insert] at h
  by_cases hsix : id = 6
  · rw [if_pos hsix] at h
    cases h
    exact ⟨hsix.symm, .inr rfl⟩
  · rw [if_neg hsix] at h
    obtain ⟨rfl, rfl⟩ := entry_eq h
    exact ⟨rfl, .inl rfl⟩

theorem loopGraph_node (h : loopGraph.nodes[id]? ≠ none) : id = 1 ∨ id = 2 := by
  unfold loopGraph at h
  rw [lookup_insert] at h
  by_cases htwo : id = 2
  · exact .inr htwo
  · rw [if_neg htwo] at h
    exact .inl (entry_iff.mp h)

theorem loopGraph_ready : Ready (statementOn loopGraph) ∧
    (statementOn loopGraph).staged.graph = loopGraph := by
  refine ready_statementOn (fun id record hrecord => ?_) (fun slot value hvalue => ?_)
    fun fact hfact => ?_
  · obtain ⟨hid, rfl | rfl⟩ := loopGraph_relationship hrecord
    · exact ⟨hid, by decide, by decide, by decide, by decide⟩
    · exact ⟨hid, by decide, by decide, by decide, by decide⟩
  · obtain ⟨_, rfl⟩ := entry_eq hvalue
    exact ⟨_, rfl⟩
  · cases fact with
    | node id =>
      obtain rfl | rfl := loopGraph_node hfact
      · exact Int.one_pos
      · exact show (0 : Int) < 2 by decide
    | label row =>
      obtain rfl : row = (1, 3) := entry_iff.mp hfact
      exact ⟨Int.one_pos, by decide⟩
    | relationship id => exact trivial
    | property slot =>
      obtain rfl : slot = (.relationship, 5, 9) := entry_iff.mp hfact
      exact ⟨by decide, by decide⟩

theorem loopGraph_consistent : loopGraph.Consistent := by
  refine ⟨fun row hrow => ?_, fun id record hrecord => ?_, fun slot value hvalue => ?_⟩
  · obtain rfl : row = (1, 3) := entry_iff.mp (Option.isSome_iff_ne_none.mp hrow)
    decide
  · obtain ⟨_, rfl | rfl⟩ := loopGraph_relationship hrecord
    · decide
    · decide
  · obtain ⟨rfl, _⟩ := entry_eq hvalue
    decide

/-- A row with the loop and its node. -/
def loopRow : BindingRow Unit where
  values := ((∅ : ExtTreeMap Text (BindingValue Unit)).insert "n".toList (.node 1)).insert
    "r".toList (.relationship ⟨5, 1, 7, 1⟩)

/-- Twice the same row: a plain `DELETE` fails on the relationship to the second node, and
    `DETACH DELETE` leaves that node alone. -/
theorem delete_exact_loop :
    (∃ e, executeDeleteClause (statementOn loopGraph) {} false [loopRow, loopRow]
      ["n".toList, "r".toList] = .error e) ∧
    ∃ ctx', executeDeleteClause (statementOn loopGraph) {} true [loopRow, loopRow]
        ["n".toList, "r".toList] = .ok ctx' ∧
      ctx'.staged.graph.nodes[(1 : NodeId)]? = none ∧
      ctx'.staged.graph.nodes[(2 : NodeId)]? = some () ∧
      ctx'.staged.graph.relationships[(6 : RelationshipId)]? = none := by
  obtain ⟨hready, hgraph⟩ := loopGraph_ready
  have hconsistent : (statementOn loopGraph).staged.graph.Consistent := by
    exact loopGraph_consistent
  have hnodes : targetNodes [loopRow, loopRow] ["n".toList, "r".toList] = [1, 1] := by decide
  have hthere : ∀ id ∈ targetNodes [loopRow, loopRow] ["n".toList, "r".toList],
      (statementOn loopGraph).staged.nodeExists id = true := by
    intro id hid
    rw [hnodes] at hid
    obtain rfl : id = 1 := by simpa using hid
    decide
  have hscalars : ∀ value ∈ targetValues [loopRow, loopRow] ["n".toList, "r".toList],
      isScalar value = false := by decide
  have hsix : (statementOn loopGraph).staged.relationship 6 = some ⟨6, 1, 7, 2⟩ := by
    decide
  obtain ⟨_, hplain, _⟩ := delete_exact hready hconsistent {} false [loopRow, loopRow]
    ["n".toList, "r".toList]
  obtain ⟨_, hdetach, _, hleft, _⟩ := delete_exact hready hconsistent {} true [loopRow, loopRow]
    ["n".toList, "r".toList]
  refine ⟨(hplain rfl rfl hthere hscalars).mpr ⟨rfl, 1, by decide, ⟨6, 1, 7, 2⟩, hsix, .inl rfl,
    by decide⟩, ?_⟩
  cases hrun : executeDeleteClause (statementOn loopGraph) {} true [loopRow, loopRow]
      ["n".toList, "r".toList] with
  | error e => cases ((hdetach rfl rfl hthere hscalars).mp ⟨e, hrun⟩).1
  | ok ctx' =>
    have hclears := (hleft ctx' hrun).1
    refine ⟨ctx', rfl, ?_, ?_, ?_⟩
    · exact hclears.cleared (.node 1) (show 1 ∈ targetNodes _ _ by decide)
    · have hkept : ctx'.staged.graph.nodes[(2 : NodeId)]? = _ :=
        hclears.kept (.node 2) (show 2 ∉ targetNodes _ _ by decide)
      rw [hkept]
      show (statementOn loopGraph).staged.graph.nodes[(2 : NodeId)]? = some ()
      decide
    · exact hclears.cleared (.relationship 6) (.inr ⟨_, hsix, .inl (by decide)⟩)

/-- A row with a walk through the whole graph. -/
def walkRow : BindingRow Unit where
  values := (∅ : ExtTreeMap Text (BindingValue Unit)).insert "p".toList
    (.path [1, 1, 2] [⟨5, 1, 7, 1⟩, ⟨6, 1, 7, 2⟩])

/-- A view that asks for a label no node has. -/
def strictView : ResolvedGraphView where
  required := [9]

/-- **A plain `DELETE` may fail where no target node has a relationship**: the view hides the
    target. -/
theorem delete_hidden : ¬ ∀ (ctx : MutationContext) (view : ResolvedGraphView)
    (rows : List (BindingRow Unit)) (names : List Text), Ready ctx →
    ctx.staged.graph.Consistent →
    (∀ value ∈ targetValues rows names, isScalar value = false) →
    ((∃ e, executeDeleteClause ctx view false rows names = .error e) ↔
      Dangling ctx.staged rows names) := by
  intro hclaim
  obtain ⟨hready, hgraph⟩ := loopGraph_ready
  have hconsistent : (statementOn loopGraph).staged.graph.Consistent := by
    exact loopGraph_consistent
  have hfails : (executeDeleteClause (statementOn loopGraph) strictView false [walkRow]
      ["p".toList]).isOk = false := by decide
  have hscalars : ∀ value ∈ targetValues [walkRow] ["p".toList], isScalar value = false := by
    decide
  have hiff := hclaim (statementOn loopGraph) strictView [walkRow] ["p".toList] hready hconsistent
    hscalars
  cases hrun : executeDeleteClause (statementOn loopGraph) strictView false [walkRow]
      ["p".toList] with
  | ok ctx' =>
    rw [hrun] at hfails
    cases hfails
  | error e =>
    obtain ⟨id, _, record, hrecord, _, hno⟩ := hiff.mp ⟨e, hrun⟩
    -- the walk has both relationships
    obtain ⟨_, rfl | rfl⟩ := loopGraph_relationship hrecord
    · exact hno (by decide)
    · exact hno (by decide)

end Lithograph.Mutation
