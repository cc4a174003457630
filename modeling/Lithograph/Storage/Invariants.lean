/-
  File:      Lithograph/Storage/Invariants.lean
  Subject:   The check of a layer against the snapshot it extends (`storage/snapshot.rs`).

  The check goes through the changes of the layer only. Left out: cancellation, memory, and the
  check of whole graphs by the recovery surfaces.

  * `valid_applyLayer`: an accepted layer keeps a valid snapshot valid.
-/
import Lithograph.Storage.Scan
import Lithograph.Storage.Identity

namespace Lithograph.Storage

open Std Library

/-! ## 1. What the database knows -/

/-- The sequences and the dictionaries of a database. -/
structure Identities where
  nextNode : Int := 1
  nextRelationship : Int := 1
  labels : Dictionary := .empty
  relationshipTypes : Dictionary := .empty
  propertyKeys : Dictionary := .empty

def requireAllocatedBelow (id next : Int) (name : String) : StorageResult Unit :=
  corruptWhen (!decide (0 < id ∧ id < next))
    (name ++ " " ++ toString id ++ " was not allocated by the database sequence")

def requireDictionaryId (dictionary : Dictionary) (id : Int) : StorageResult Unit :=
  corruptWhen (dictionary.nameOf id).isNone ("dictionary id " ++ toString id ++ " does not exist")

/-- `validate_dictionary_ids`: each id once, in order. -/
def validateDictionaryIds (dictionary : Dictionary) (ids : List Int) : StorageResult Unit :=
  let unique : ExtTreeMap Int Unit := ids.foldl (fun unique id => unique.insert id ()) ∅
  unique.keys.forM (requireDictionaryId dictionary)

/-- The rows of `_lithograph_rel_delta`: the tuple of each change of each stored layer. -/
abbrev RelationshipTuples := List RelationshipRecord

/-- `SELECT coalesce(max(relationship_id), 0)`. -/
def maxPersistedRelationship (tuples : RelationshipTuples) : Int :=
  tuples.foldl (fun m record => max m record.id) 0

def requireRelationshipTupleStable (tuples : RelationshipTuples) (record : RelationshipRecord) :
    StorageResult Unit :=
  corruptWhen (tuples.any fun row => row.id == record.id &&
      (row.source != record.source || row.typeId != record.typeId || row.target != record.target))
    ("RelationshipId " ++ toString record.id ++ " changed its immutable endpoints or type")

namespace IndexedSnapshot

variable (s : IndexedSnapshot) (layer : LayerBuilder)

/-! ## 2. What is there after the layer -/

def nodeExistsAfter (node : NodeId) : Bool :=
  match layer.nodes[node]? with
  | some .add => true
  | some .remove => false
  | none => s.snapshot.nodeExists node

def nodeHasRelationshipDependentsAfter (node : NodeId) : Bool :=
  (s.scanIncident node none 256).any (fun record =>
      !(layer.relationships[record.id]?.any fun delta => delta.op == .remove)) ||
    layer.relationships.toList.any fun e => e.2.op == .add &&
      (e.2.record.source == node || e.2.record.target == node)

def nodeHasLabelDependentsAfter (node : NodeId) : Bool :=
  (s.snapshot.visitNodeLabels node).any (fun label =>
      !(layer.labels[(node, label)]?.any fun op => op == .remove)) ||
    layer.labels.toList.any fun e => e.1.1 == node && e.2 == .add

def ownerHasVisiblePropertyAfter (kind : OwnerKind) (owner : Int) : StorageResult Bool := do
  let visible ← s.snapshot.visitOwnerProperties kind owner
  pure (visible.any (fun e => !(layer.properties[e.1]?.any fun delta => delta.op == .remove)) ||
    layer.properties.toList.any fun e => e.1.1 == kind && e.1.2.1 == owner && e.2.op == .add)

def nodeHasVisibleDependentsAfter (node : NodeId) : StorageResult Bool :=
  if s.nodeHasRelationshipDependentsAfter layer node then pure true
  else if s.nodeHasLabelDependentsAfter layer node then pure true
  else s.ownerHasVisiblePropertyAfter layer .node node

/-! ## 3. The checks -/

def validateLayerNodes (ids : Identities) : StorageResult Unit :=
  layer.nodes.keys.forM fun node => requireAllocatedBelow node ids.nextNode "NodeId"

/-- One round of `validate_layer_labels`. -/
def validateLayerLabel (ids : Identities) (row : NodeId × LabelId) (op : DeltaOp) :
    StorageResult Unit := do
  requireAllocatedBelow row.1 ids.nextNode "NodeId"
  corruptWhen (op == .add && !s.nodeExistsAfter layer row.1)
    ("LabelId " ++ toString row.2 ++ " refers to missing NodeId " ++ toString row.1)

def validateLayerLabels (ids : Identities) : StorageResult Unit := do
  validateDictionaryIds ids.labels (layer.labels.keys.map Prod.snd)
  layer.labels.toList.forM fun e => s.validateLayerLabel layer ids e.1 e.2

/-- The check of a tuple: only an id that a layer has used can have another one. -/
def requireTupleKept (tuples : RelationshipTuples) (record : RelationshipRecord) :
    StorageResult Unit :=
  if record.id ≤ maxPersistedRelationship tuples then requireRelationshipTupleStable tuples record
  else .ok ()

/-- The last check of `validate_layer_relationship`: what a change leaves behind. -/
def validateRelationshipOwners (delta : RelationshipDelta) : StorageResult Unit :=
  if delta.op = .add then
    corruptWhen (!s.nodeExistsAfter layer delta.record.source ||
        !s.nodeExistsAfter layer delta.record.target)
      ("RelationshipId " ++ toString delta.record.id ++ " has a missing endpoint")
  else do
    let visible ← s.ownerHasVisiblePropertyAfter layer .relationship delta.record.id
    corruptWhen visible ("RelationshipId " ++ toString delta.record.id ++
      " is removed while visible Properties still reference it")

def validateLayerRelationship (ids : Identities) (tuples : RelationshipTuples)
    (delta : RelationshipDelta) : StorageResult Unit := do
  requireAllocatedBelow delta.record.id ids.nextRelationship "RelationshipId"
  requireAllocatedBelow delta.record.source ids.nextNode "source NodeId"
  requireAllocatedBelow delta.record.target ids.nextNode "target NodeId"
  requireTupleKept tuples delta.record
  s.validateRelationshipOwners layer delta

def validateLayerRelationships (ids : Identities) (tuples : RelationshipTuples) :
    StorageResult Unit := do
  validateDictionaryIds ids.relationshipTypes
    (layer.relationships.toList.map fun e => e.2.record.typeId)
  layer.relationships.toList.forM fun e => s.validateLayerRelationship layer ids tuples e.2

/-- The allocation an owner is checked against. -/
def requireOwnerAllocated (ids : Identities) (kind : OwnerKind) (owner : Int) :
    StorageResult Unit :=
  match kind with
  | .node => requireAllocatedBelow owner ids.nextNode "NodeId"
  | .relationship => requireAllocatedBelow owner ids.nextRelationship "RelationshipId"

/-- The owner of a property, after the layer. -/
def ownerExistsAfter (kind : OwnerKind) (owner : Int) : Bool :=
  match kind with
  | .node => s.nodeExistsAfter layer owner
  | .relationship =>
    match layer.relationships[owner]? with
    | some delta => delta.op == .add
    | none => (s.snapshot.relationship owner).isSome

def validateLayerProperty (ids : Identities) (slot : PropertySlot) (delta : PropertyDelta) :
    StorageResult Unit := do
  requireOwnerAllocated ids slot.1 slot.2.1
  corruptWhen (delta.op == .add && !s.ownerExistsAfter layer slot.1 slot.2.1)
    ("property key " ++ toString slot.2.2 ++ " refers to missing owner " ++ toString slot.2.1)

def validateLayerProperties (ids : Identities) : StorageResult Unit := do
  validateDictionaryIds ids.propertyKeys (layer.properties.keys.map fun slot => slot.2.2)
  layer.properties.toList.forM fun e => s.validateLayerProperty layer ids e.1 e.2

/-- One round of `validate_removed_nodes`. -/
def validateRemovedNode (node : NodeId) (op : DeltaOp) : StorageResult Unit :=
  if op = .remove then do
    let dependents ← s.nodeHasVisibleDependentsAfter layer node
    corruptWhen dependents ("NodeId " ++ toString node ++
      " is removed while visible graph state still references it")
  else .ok ()

def validateRemovedNodes : StorageResult Unit :=
  layer.nodes.toList.forM fun e => s.validateRemovedNode layer e.1 e.2

/-- `validate_layer_invariants_checked`. -/
def validateLayer (ids : Identities) (tuples : RelationshipTuples) : StorageResult Unit := do
  validateLayerNodes layer ids
  s.validateLayerLabels layer ids
  s.validateLayerRelationships layer ids tuples
  s.validateLayerProperties layer ids
  s.validateRemovedNodes layer

end IndexedSnapshot

/-! ## 4. Graphs that refer to nothing missing -/

namespace GraphState

/-- The owner of a property is there. -/
def ownerExists (g : GraphState) (kind : OwnerKind) (owner : Int) : Bool :=
  match kind with
  | .node => g.nodes[owner]?.isSome
  | .relationship => g.relationships[owner]?.isSome

/-- **The invariants of a graph**: labels, relationships and properties refer to what is there. -/
structure Consistent (g : GraphState) : Prop where
  labels : ∀ (row : NodeId × LabelId), g.labels[row]?.isSome → g.nodes[row.1]?.isSome
  endpoints : ∀ (id : RelationshipId) record, g.relationships[id]? = some record →
    g.nodes[record.source]?.isSome ∧ g.nodes[record.target]?.isSome
  owners : ∀ (slot : PropertySlot) value, g.properties[slot]? = some value →
    g.ownerExists slot.1 slot.2.1

/-- Every identifier of a graph is known to the database. -/
structure Known (g : GraphState) (ids : Identities) (tuples : RelationshipTuples) : Prop where
  nodes : ∀ (id : NodeId), g.nodes[id]?.isSome → 0 < id ∧ id < ids.nextNode
  labels : ∀ (row : NodeId × LabelId), g.labels[row]?.isSome → (ids.labels.nameOf row.2).isSome
  relationships : ∀ (id : RelationshipId) record, g.relationships[id]? = some record →
    record.id = id ∧ 0 < id ∧ id < ids.nextRelationship ∧
      (ids.relationshipTypes.nameOf record.typeId).isSome ∧ record ∈ tuples
  properties : ∀ (slot : PropertySlot) value, g.properties[slot]? = some value →
    (ids.propertyKeys.nameOf slot.2.2).isSome

end GraphState

/-- What the constructors of a layer see to, whatever the size of its numbers. -/
structure LayerBuilder.Formed (l : LayerBuilder) : Prop where
  labels : ∀ (row : NodeId × LabelId) op, l.labels[row]? = some op → 0 < row.2
  keyed : ∀ (id : RelationshipId) delta, l.relationships[id]? = some delta → delta.record.id = id
  keys : ∀ (slot : PropertySlot) delta, l.properties[slot]? = some delta → 0 < slot.2.2
  values : ∀ (slot : PropertySlot) delta, l.properties[slot]? = some delta →
    (delta.op = .add ↔ delta.value.isSome)

theorem formed_apply {o : Overlay} {l : LayerBuilder} (ho : o.layer.Formed) (hl : l.Formed) :
    (o.apply l).layer.Formed := by
  constructor
  · intro row op hop
    have hlook : (insertEntries o.labels l.labels)[row]? = some op := hop
    rw [getElem?_insertEntries] at hlook
    cases h : l.labels[row]? with
    | none => exact ho.labels row op (by rw [h] at hlook; exact hlook)
    | some op' => exact hl.labels row op' h
  · intro id delta hdelta
    have hlook : (insertEntries o.relationships l.relationships)[id]? = some delta := hdelta
    rw [getElem?_insertEntries] at hlook
    cases h : l.relationships[id]? with
    | none => exact ho.keyed id delta (by rw [h] at hlook; exact hlook)
    | some delta' =>
      rw [h] at hlook
      exact hl.keyed id delta (h.trans hlook)
  · intro slot delta hdelta
    have hlook : (insertEntries o.properties l.properties)[slot]? = some delta := hdelta
    rw [getElem?_insertEntries] at hlook
    cases h : l.properties[slot]? with
    | none => exact ho.keys slot delta (by rw [h] at hlook; exact hlook)
    | some delta' => exact hl.keys slot delta' h
  · intro slot delta hdelta
    have hlook : (insertEntries o.properties l.properties)[slot]? = some delta := hdelta
    rw [getElem?_insertEntries] at hlook
    cases h : l.properties[slot]? with
    | none => exact ho.values slot delta (by rw [h] at hlook; exact hlook)
    | some delta' =>
      rw [h] at hlook
      exact hl.values slot delta (h.trans hlook)

/-- **What an accepted layer satisfies**, in terms of the graph before and after it. -/
structure Accepted (ids : Identities) (tuples : RelationshipTuples) (g : GraphState)
    (l : LayerBuilder) : Prop where
  nodes : ∀ (id : NodeId) op, l.nodes[id]? = some op → 0 < id ∧ id < ids.nextNode
  labels : ∀ (row : NodeId × LabelId) op, l.labels[row]? = some op →
    (ids.labels.nameOf row.2).isSome ∧ (0 < row.1 ∧ row.1 < ids.nextNode) ∧
      (op = .add → (g.apply l).nodes[row.1]?.isSome)
  relationships : ∀ (id : RelationshipId) delta, l.relationships[id]? = some delta →
    (ids.relationshipTypes.nameOf delta.record.typeId).isSome ∧
      (0 < delta.record.id ∧ delta.record.id < ids.nextRelationship) ∧
      (0 < delta.record.source ∧ delta.record.source < ids.nextNode) ∧
      (0 < delta.record.target ∧ delta.record.target < ids.nextNode) ∧
      ∀ record ∈ tuples, record.id = delta.record.id → record = delta.record
  endpoints : ∀ (id : RelationshipId) delta, l.relationships[id]? = some delta →
    delta.op = .add → (g.apply l).nodes[delta.record.source]?.isSome ∧
      (g.apply l).nodes[delta.record.target]?.isSome
  orphans : ∀ (id : RelationshipId) delta, l.relationships[id]? = some delta →
    delta.op = .remove → ∀ key : PropertyKeyId,
      (g.apply l).properties[(OwnerKind.relationship, id, key)]? = none
  properties : ∀ (slot : PropertySlot) delta, l.properties[slot]? = some delta →
    (ids.propertyKeys.nameOf slot.2.2).isSome ∧
      (match slot.1 with
        | .node => 0 < slot.2.1 ∧ slot.2.1 < ids.nextNode
        | .relationship => 0 < slot.2.1 ∧ slot.2.1 < ids.nextRelationship) ∧
      (delta.op = .add → (g.apply l).ownerExists slot.1 slot.2.1)
  removed : ∀ (id : NodeId), l.nodes[id]? = some .remove →
    (∀ (rel : RelationshipId) record, (g.apply l).relationships[rel]? = some record →
      record.source ≠ id ∧ record.target ≠ id) ∧
    (∀ label : LabelId, (g.apply l).labels[(id, label)]? = none) ∧
    (∀ key : PropertyKeyId, (g.apply l).properties[(OwnerKind.node, id, key)]? = none)

variable {record : RelationshipRecord} {u : Unit} {tuples : RelationshipTuples} {ids : Identities}
  {id : RelationshipId}

/-! ## 5. What each question answers -/

namespace IndexedSnapshot

variable {s : IndexedSnapshot} {l : LayerBuilder}

theorem nodeExistsAfter_eq (node : NodeId) :
    s.nodeExistsAfter l node = (s.snapshot.graph.apply l).nodes[node]?.isSome := by
  unfold nodeExistsAfter
  rw [GraphState.nodes_apply, Snapshot.nodeExists_eq]
  cases l.nodes[node]? with
  | none => rfl
  | some op => cases op <;> rfl

theorem ownerExistsAfter_eq (kind : OwnerKind) (owner : Int) :
    s.ownerExistsAfter l kind owner = (s.snapshot.graph.apply l).ownerExists kind owner := by
  cases kind with
  | node => exact nodeExistsAfter_eq owner
  | relationship =>
    unfold ownerExistsAfter GraphState.ownerExists
    rw [GraphState.relationships_apply, Snapshot.relationship_eq]
    cases l.relationships[owner]? with
    | none => rfl
    | some delta =>
      obtain ⟨op, record⟩ := delta
      cases op <;> rfl

theorem nodeHasLabelDependentsAfter_iff (hs : s.snapshot.Formed) (node : NodeId) :
    s.nodeHasLabelDependentsAfter l node = true ↔
      ∃ label : LabelId, (s.snapshot.graph.apply l).labels[(node, label)]?.isSome := by
  have hpatch := exists_patch s.snapshot.graph.labels l.labels DeltaOp.change
    (fun row _ => row.1 = node) (fun _ _ _ _ _ _ _ => Iff.rfl)
  unfold nodeHasLabelDependentsAfter
  rw [Snapshot.visitNodeLabels_eq hs, Bool.or_eq_true]
  constructor
  · intro h
    obtain ⟨row, v, hrow, hv⟩ := hpatch.mpr (by
      rcases h with h | h
      · obtain ⟨label, hlabel, hkept⟩ := List.any_eq_true.mp h
        obtain ⟨e, he, rfl⟩ := List.mem_map.mp hlabel
        obtain ⟨he, hnode⟩ := List.mem_filter.mp he
        have hnode : e.1.1 = node := by simpa using hnode
        refine Or.inl ⟨e.1, e.2, hnode, lookup_of_mem he, fun op hop => ?_⟩
        rw [← hnode, show (e.1.1, e.1.2) = e.1 from rfl, hop] at hkept
        cases op with
        | add => rfl
        | remove => cases hkept
      · obtain ⟨e, he, hadd⟩ := List.any_eq_true.mp h
        simp only [Bool.and_eq_true, beq_iff_eq] at hadd
        refine Or.inr ⟨e.1, e.2, (), lookup_of_mem he, ?_, hadd.1⟩
        rw [hadd.2]
        rfl)
    refine ⟨row.2, ?_⟩
    rw [← hrow, show (row.1, row.2) = row from rfl]
    exact Option.isSome_of_eq_some hv
  · rintro ⟨label, hlabel⟩
    obtain ⟨v, hv⟩ := Option.isSome_iff_exists.mp hlabel
    rcases hpatch.mp ⟨(node, label), v, rfl, hv⟩ with ⟨row, v, hrow, hv, hkept⟩ |
      ⟨row, op, v, hop, hchange, hrow⟩
    · refine Or.inl (List.any_eq_true.mpr ⟨row.2, List.mem_map.mpr ⟨(row, v),
        List.mem_filter.mpr ⟨mem_of_lookup hv, by simpa using hrow⟩, rfl⟩, ?_⟩)
      rw [← hrow, show (row.1, row.2) = row from rfl]
      cases hop : l.labels[row]? with
      | none => rfl
      | some op =>
        have := hkept op hop
        cases op with
        | add => rfl
        | remove => cases this
    · refine Or.inr (List.any_eq_true.mpr ⟨(row, op), mem_of_lookup hop, ?_⟩)
      cases op with
      | add => simpa using hrow
      | remove => cases hchange

theorem ownerHasVisiblePropertyAfter_ok (hs : s.snapshot.Formed) (hl : l.Formed)
    (kind : OwnerKind) (owner : Int) :
    ∃ b, s.ownerHasVisiblePropertyAfter l kind owner = .ok b ∧ (b = true ↔
      ∃ key : PropertyKeyId,
        (s.snapshot.graph.apply l).properties[(kind, owner, key)]?.isSome) := by
  have hpatch := exists_patch s.snapshot.graph.properties l.properties PropertyDelta.value
    (fun slot _ => slot.1 = kind ∧ slot.2.1 = owner) (fun _ _ _ _ _ _ _ => Iff.rfl)
  have hremove : ∀ (slot : PropertySlot) delta, l.properties[slot]? = some delta →
      (delta.op = .remove ↔ delta.value.isSome = false) := by
    intro slot delta hdelta
    have hvalues := hl.values slot delta hdelta
    cases hop : delta.op <;> cases hv : delta.value.isSome <;> simp_all
  unfold ownerHasVisiblePropertyAfter
  rw [Snapshot.visitOwnerProperties_eq hs, ok_bind]
  refine ⟨_, rfl, ?_⟩
  rw [Bool.or_eq_true]
  constructor
  · intro h
    obtain ⟨slot, v, ⟨hkind, howner⟩, hv⟩ := hpatch.mpr (by
      rcases h with h | h
      · obtain ⟨e, he, hkept⟩ := List.any_eq_true.mp h
        obtain ⟨he, howner⟩ := List.mem_filter.mp he
        refine Or.inl ⟨e.1, e.2, by simpa using howner, lookup_of_mem he,
          fun delta hdelta => ?_⟩
        rw [hdelta] at hkept
        have hop := hremove e.1 delta hdelta
        cases hv : delta.value.isSome with
        | true => rfl
        | false =>
          rw [Option.any_some, hop.mpr hv] at hkept
          cases hkept
      · obtain ⟨e, he, hadd⟩ := List.any_eq_true.mp h
        simp only [Bool.and_eq_true, beq_iff_eq] at hadd
        have hentry := lookup_of_mem he
        obtain ⟨v, hv⟩ := Option.isSome_iff_exists.mp ((hl.values e.1 e.2 hentry).mp hadd.2)
        exact Or.inr ⟨e.1, e.2, v, hentry, hv, hadd.1⟩)
    refine ⟨slot.2.2, ?_⟩
    rw [← hkind, ← howner, show (slot.1, slot.2.1, slot.2.2) = slot from rfl]
    exact Option.isSome_of_eq_some hv
  · rintro ⟨key, hkey⟩
    obtain ⟨v, hv⟩ := Option.isSome_iff_exists.mp hkey
    rcases hpatch.mp ⟨(kind, owner, key), v, ⟨rfl, rfl⟩, hv⟩ with ⟨slot, v, hslot, hv, hkept⟩ |
      ⟨slot, delta, v, hdelta, hvalue, hslot⟩
    · refine Or.inl (List.any_eq_true.mpr ⟨(slot, v),
        List.mem_filter.mpr ⟨mem_of_lookup hv, by simpa using hslot⟩, ?_⟩)
      cases hdelta : l.properties[slot]? with
      | none => rfl
      | some delta =>
        have hsome := hkept delta hdelta
        have hop := hremove slot delta hdelta
        rw [hsome] at hop
        cases hd : delta.op with
        | add => simp [hd]
        | remove => exact absurd (hop.mp hd) (by decide)
    · refine Or.inr (List.any_eq_true.mpr ⟨(slot, delta), mem_of_lookup hdelta, ?_⟩)
      have hop := (hl.values slot delta hdelta).mpr (Option.isSome_of_eq_some hvalue)
      simp [hslot.1, hslot.2, hop]

theorem mem_scanIncident (hs : s.Sound) {node : NodeId} {limit : Nat} :
    record ∈ s.scanIncident node none limit ↔
      s.snapshot.graph.relationships[record.id]? = some record ∧
        (record.source = node ∨ record.target = node) := by
  have hrows : ∀ kind, record ∈ (adjacencyRows kind node none
      s.snapshot.graph.relationships).map Prod.snd ↔
        s.snapshot.graph.relationships[record.id]? = some record ∧
          adjacencyMatches kind node none record = true := by
    intro kind
    rw [List.mem_map]
    constructor
    · rintro ⟨⟨key, r⟩, hr, rfl⟩
      obtain ⟨hr, hmatch, _⟩ := (mem_adjacencyRows (graph_keyed hs)).mp hr
      exact ⟨hr, hmatch⟩
    · rintro ⟨hr, hmatch⟩
      exact ⟨(adjacencyKey kind record, record),
        (mem_adjacencyRows (graph_keyed hs)).mpr ⟨hr, hmatch, rfl⟩, rfl⟩
  have hin : record ∈ filterIncidentSelfLoops node .incoming
      ((adjacencyRows .incoming node none s.snapshot.graph.relationships).map Prod.snd) ↔
        (s.snapshot.graph.relationships[record.id]? = some record ∧
          adjacencyMatches .incoming node none record = true) ∧
          ¬ (record.source = node ∧ record.target = node) := by
    unfold filterIncidentSelfLoops
    rw [List.mem_filter, hrows]
    simp only [Bool.not_eq_true', Bool.and_eq_false_iff, beq_eq_false_iff_ne, ne_eq, not_and]
    rw [Decidable.imp_iff_not_or]
  rw [scanIncident_eq hs, List.mem_append, hrows, hin]
  unfold adjacencyMatches
  by_cases hsource : record.source = node
  · simp [hsource]
  · simp [hsource]

theorem nodeHasRelationshipDependentsAfter_iff (hs : s.Sound)
    (hstable : ∀ (id : RelationshipId) record delta,
      s.snapshot.graph.relationships[id]? = some record → l.relationships[id]? = some delta →
        delta.record = record) (node : NodeId) :
    s.nodeHasRelationshipDependentsAfter l node = true ↔
      ∃ (id : RelationshipId) (record : RelationshipRecord),
        (s.snapshot.graph.apply l).relationships[id]? = some record ∧
          (record.source = node ∨ record.target = node) := by
  have hpatch := exists_patch s.snapshot.graph.relationships l.relationships
    RelationshipDelta.change (fun _ record => record.source = node ∨ record.target = node)
    (fun id record delta record' hr hd hchange => by
      rw [← hstable id record delta hr hd, (RelationshipDelta.change_some.mp hchange).2])
  unfold nodeHasRelationshipDependentsAfter
  rw [Bool.or_eq_true]
  constructor
  · intro h
    obtain ⟨id, record, hnode, hrecord⟩ := hpatch.mpr (by
      rcases h with h | h
      · obtain ⟨record, hrecord, hkept⟩ := List.any_eq_true.mp h
        obtain ⟨hrecord, hnode⟩ := (mem_scanIncident hs).mp hrecord
        refine Or.inl ⟨record.id, record, hnode, hrecord, fun delta hdelta => ?_⟩
        rw [hdelta] at hkept
        obtain ⟨op, r⟩ := delta
        cases op with
        | add => rfl
        | remove => cases hkept
      · obtain ⟨e, he, hadd⟩ := List.any_eq_true.mp h
        simp only [Bool.and_eq_true, Bool.or_eq_true, beq_iff_eq] at hadd
        refine Or.inr ⟨e.1, e.2, e.2.record, lookup_of_mem he, ?_, hadd.2⟩
        exact if_pos hadd.1)
    exact ⟨id, record, hrecord, hnode⟩
  · rintro ⟨id, record, hrecord, hnode⟩
    rcases hpatch.mp ⟨id, record, hnode, hrecord⟩ with ⟨id, record, hnode, hrecord, hkept⟩ |
      ⟨id, delta, record, hdelta, hchange, hnode⟩
    · have hid : record.id = id := graph_keyed hs id record hrecord
      refine Or.inl (List.any_eq_true.mpr ⟨record,
        (mem_scanIncident hs).mpr ⟨hid.symm ▸ hrecord, hnode⟩, ?_⟩)
      rw [hid]
      cases hdelta : l.relationships[id]? with
      | none => rfl
      | some delta =>
        have hsome := hkept delta hdelta
        obtain ⟨op, r⟩ := delta
        cases op with
        | add => rfl
        | remove => cases hsome
    · refine Or.inr (List.any_eq_true.mpr ⟨(id, delta), mem_of_lookup hdelta, ?_⟩)
      obtain ⟨hop, rfl⟩ := RelationshipDelta.change_some.mp hchange
      simpa [hop] using hnode

/-! ## 6. What the check accepts -/

theorem requireAllocatedBelow_ok {id next : Int} {name : String} {u : Unit} :
    requireAllocatedBelow id next name = .ok u ↔ 0 < id ∧ id < next := by
  unfold requireAllocatedBelow
  simp

theorem requireDictionaryId_ok {dictionary : Dictionary} {id : Int} :
    requireDictionaryId dictionary id = .ok u ↔ (dictionary.nameOf id).isSome := by
  unfold requireDictionaryId
  cases dictionary.nameOf id <;> simp

theorem validateDictionaryIds_ok {dictionary : Dictionary} {ids : List Int} :
    validateDictionaryIds dictionary ids = .ok () ↔ ∀ id ∈ ids, (dictionary.nameOf id).isSome := by
  have hunique : ∀ (ids : List Int) (acc : ExtTreeMap Int Unit) (id : Int),
      id ∈ (ids.foldl (fun unique id => unique.insert id ()) acc).keys ↔
        id ∈ acc.keys ∨ id ∈ ids := by
    intro ids
    induction ids with
    | nil => simp
    | cons first ids ih =>
      intro acc id
      rw [List.foldl_cons, ih, ExtTreeMap.mem_keys, ExtTreeMap.mem_keys, ExtTreeMap.mem_insert]
      simp only [List.mem_cons, Std.compare_eq_iff_eq]
      constructor
      · rintro ((h | h) | h)
        · exact Or.inr (Or.inl h.symm)
        · exact Or.inl h
        · exact Or.inr (Or.inr h)
      · rintro (h | h | h)
        · exact Or.inl (Or.inr h)
        · exact Or.inl (Or.inl h.symm)
        · exact Or.inr h
  unfold validateDictionaryIds
  simp only [forM_eq_ok]
  constructor
  · intro h id hid
    exact requireDictionaryId_ok.mp (h id ((hunique ids ∅ id).mpr (Or.inr hid)))
  · intro h id hid
    rcases (hunique ids ∅ id).mp hid with hempty | hid
    · simp at hempty
    · exact requireDictionaryId_ok.mpr (h id hid)

theorem le_maxPersistedRelationship (h : record ∈ tuples) :
    record.id ≤ maxPersistedRelationship tuples := by
  have hfold : ∀ (tuples : RelationshipTuples) (m : Int),
      m ≤ tuples.foldl (fun m record => max m record.id) m ∧
        ∀ r ∈ tuples, r.id ≤ tuples.foldl (fun m record => max m record.id) m := by
    intro tuples
    induction tuples with
    | nil => simp
    | cons first tuples ih =>
      intro m
      obtain ⟨hle, hall⟩ := ih (max m first.id)
      refine ⟨by rw [List.foldl_cons]; omega, fun r hr => ?_⟩
      rcases List.mem_cons.mp hr with rfl | hr
      · exact Int.le_trans (Int.le_max_right m r.id) hle
      · exact hall r hr
  exact (hfold tuples 0).2 record h

theorem requireRelationshipTupleStable_ok : requireRelationshipTupleStable tuples record = .ok u ↔
      ∀ row ∈ tuples, row.id = record.id → row = record := by
  have hrow : ∀ row : RelationshipRecord, (row.id == record.id && (row.source != record.source ||
      row.typeId != record.typeId || row.target != record.target)) = false ↔
        (row.id = record.id → row = record) := by
    intro row
    obtain ⟨id, source, typeId, target⟩ := row
    obtain ⟨id', source', typeId', target'⟩ := record
    by_cases hid : id = id'
    · simp [hid, and_assoc]
    · simp [hid]
  unfold requireRelationshipTupleStable
  rw [corruptWhen_ok, List.any_eq_false]
  constructor
  · intro h row hmem
    exact (hrow row).mp (Bool.eq_false_iff.mpr (h row hmem))
  · intro h row hmem
    exact Bool.eq_false_iff.mp ((hrow row).mpr (h row hmem))

theorem requireTupleKept_ok : requireTupleKept tuples record = .ok () ↔
      ∀ row ∈ tuples, row.id = record.id → row = record := by
  unfold requireTupleKept
  split
  · exact requireRelationshipTupleStable_ok
  · rename_i hbeyond
    refine iff_of_true rfl fun row hmem hid => ?_
    exact absurd (hid ▸ le_maxPersistedRelationship hmem) hbeyond

theorem validateLayerNodes_ok : validateLayerNodes l ids = .ok () ↔
    ∀ (id : NodeId) op, l.nodes[id]? = some op → 0 < id ∧ id < ids.nextNode := by
  unfold validateLayerNodes
  simp only [forM_eq_ok, requireAllocatedBelow_ok]
  exact forall_mem_keys (p := fun id => 0 < id ∧ id < ids.nextNode)

theorem validateLayerLabels_ok : s.validateLayerLabels l ids = .ok () ↔
    ∀ (row : NodeId × LabelId) op, l.labels[row]? = some op →
      (ids.labels.nameOf row.2).isSome ∧ (0 < row.1 ∧ row.1 < ids.nextNode) ∧
        (op = .add → (s.snapshot.graph.apply l).nodes[row.1]?.isSome) := by
  have hlabel : ∀ (row : NodeId × LabelId) op, s.validateLayerLabel l ids row op = .ok () ↔
      (0 < row.1 ∧ row.1 < ids.nextNode) ∧
        (op = .add → (s.snapshot.graph.apply l).nodes[row.1]?.isSome) := by
    intro row op
    unfold validateLayerLabel
    simp only [check_bind_eq_ok, requireAllocatedBelow_ok, corruptWhen_ok, nodeExistsAfter_eq]
    cases op <;> simp
  unfold validateLayerLabels
  simp only [check_bind_eq_ok, validateDictionaryIds_ok, forM_eq_ok, hlabel, List.mem_map,
    forall_exists_index, and_imp, forall_apply_eq_imp_iff₂]
  rw [forall_mem_toList, forall_mem_keys (p := fun row : NodeId × LabelId =>
    (ids.labels.nameOf row.2).isSome)]
  exact ⟨fun h row op hop => ⟨h.1 row op hop, h.2 row op hop⟩,
    fun h => ⟨fun row op hop => (h row op hop).1, fun row op hop => (h row op hop).2⟩⟩

theorem validateRelationshipOwners_ok (hs : s.snapshot.Formed) (hl : l.Formed)
    {delta : RelationshipDelta} : s.validateRelationshipOwners l delta = .ok () ↔
      (delta.op = .add → (s.snapshot.graph.apply l).nodes[delta.record.source]?.isSome ∧
        (s.snapshot.graph.apply l).nodes[delta.record.target]?.isSome) ∧
      (delta.op = .remove → ∀ key : PropertyKeyId, (s.snapshot.graph.apply l).properties[
        (OwnerKind.relationship, delta.record.id, key)]? = none) := by
  unfold validateRelationshipOwners
  cases hop : delta.op with
  | add => simp [nodeExistsAfter_eq]
  | remove =>
    obtain ⟨b, hb, hvisible⟩ := ownerHasVisiblePropertyAfter_ok hs hl .relationship delta.record.id
    simp only [reduceCtorEq, if_false, hb, ok_bind, corruptWhen_ok, false_imp_iff, true_and,
      true_imp_iff]
    rw [Bool.eq_false_iff, ne_eq, hvisible, not_exists]
    refine forall_congr' fun key => ?_
    rw [Option.not_isSome_iff_eq_none]

theorem validateLayerRelationships_ok (hs : s.snapshot.Formed) (hl : l.Formed) :
    s.validateLayerRelationships l ids tuples = .ok () ↔
      (∀ (id : RelationshipId) delta, l.relationships[id]? = some delta →
        (ids.relationshipTypes.nameOf delta.record.typeId).isSome ∧
          (0 < delta.record.id ∧ delta.record.id < ids.nextRelationship) ∧
          (0 < delta.record.source ∧ delta.record.source < ids.nextNode) ∧
          (0 < delta.record.target ∧ delta.record.target < ids.nextNode) ∧
          ∀ record ∈ tuples, record.id = delta.record.id → record = delta.record) ∧
      (∀ (id : RelationshipId) delta, l.relationships[id]? = some delta →
        delta.op = .add → (s.snapshot.graph.apply l).nodes[delta.record.source]?.isSome ∧
          (s.snapshot.graph.apply l).nodes[delta.record.target]?.isSome) ∧
      (∀ (id : RelationshipId) delta, l.relationships[id]? = some delta →
        delta.op = .remove → ∀ key : PropertyKeyId, (s.snapshot.graph.apply l).properties[
          (OwnerKind.relationship, id, key)]? = none) := by
  unfold validateLayerRelationships validateLayerRelationship
  simp only [check_bind_eq_ok, validateDictionaryIds_ok, forM_eq_ok, List.mem_map,
    requireAllocatedBelow_ok, requireTupleKept_ok, validateRelationshipOwners_ok hs hl,
    forall_exists_index, and_imp, forall_apply_eq_imp_iff₂]
  rw [forall_mem_toList, forall_mem_toList]
  constructor
  · rintro ⟨htypes, hrest⟩
    refine ⟨fun id delta hd => ?_, fun id delta hd => ?_, fun id delta hd => ?_⟩
    · obtain ⟨hid, hsource, htarget, htuple, _⟩ := hrest id delta hd
      exact ⟨htypes id delta hd, hid, hsource, htarget, htuple⟩
    · exact (hrest id delta hd).2.2.2.2.1
    · rw [← hl.keyed id delta hd]
      exact (hrest id delta hd).2.2.2.2.2
  · rintro ⟨hids, hendpoints, horphans⟩
    refine ⟨fun id delta hd => (hids id delta hd).1, fun id delta hd => ?_⟩
    obtain ⟨_, hid, hsource, htarget, htuple⟩ := hids id delta hd
    refine ⟨hid, hsource, htarget, htuple, hendpoints id delta hd, ?_⟩
    rw [hl.keyed id delta hd]
    exact horphans id delta hd

theorem requireOwnerAllocated_ok {kind : OwnerKind} {owner : Int} :
    requireOwnerAllocated ids kind owner = .ok u ↔
      match kind with
      | .node => 0 < owner ∧ owner < ids.nextNode
      | .relationship => 0 < owner ∧ owner < ids.nextRelationship := by
  cases kind <;> exact requireAllocatedBelow_ok

theorem validateLayerProperties_ok : s.validateLayerProperties l ids = .ok () ↔
      ∀ (slot : PropertySlot) delta, l.properties[slot]? = some delta →
        (ids.propertyKeys.nameOf slot.2.2).isSome ∧
          (match slot.1 with
            | .node => 0 < slot.2.1 ∧ slot.2.1 < ids.nextNode
            | .relationship => 0 < slot.2.1 ∧ slot.2.1 < ids.nextRelationship) ∧
          (delta.op = .add → (s.snapshot.graph.apply l).ownerExists slot.1 slot.2.1) := by
  have hproperty : ∀ (slot : PropertySlot) delta,
      s.validateLayerProperty l ids slot delta = .ok () ↔
        (match slot.1 with
          | .node => 0 < slot.2.1 ∧ slot.2.1 < ids.nextNode
          | .relationship => 0 < slot.2.1 ∧ slot.2.1 < ids.nextRelationship) ∧
        (delta.op = .add → (s.snapshot.graph.apply l).ownerExists slot.1 slot.2.1) := by
    intro slot delta
    unfold validateLayerProperty
    simp only [check_bind_eq_ok, requireOwnerAllocated_ok, corruptWhen_ok, ownerExistsAfter_eq]
    cases delta.op <;> simp
  unfold validateLayerProperties
  simp only [check_bind_eq_ok, validateDictionaryIds_ok, forM_eq_ok, hproperty,
    List.mem_map, forall_exists_index, and_imp, forall_apply_eq_imp_iff₂]
  rw [forall_mem_toList, forall_mem_keys (p := fun slot : PropertySlot =>
    (ids.propertyKeys.nameOf slot.2.2).isSome)]
  exact ⟨fun h slot delta hd => ⟨h.1 slot delta hd, h.2 slot delta hd⟩,
    fun h => ⟨fun slot delta hd => (h slot delta hd).1, fun slot delta hd => (h slot delta hd).2⟩⟩

/-- **A removed node leaves nothing that refers to it.** -/
theorem validateRemovedNode_ok (hs : s.Sound) (hl : l.Formed)
    (hstable : ∀ (id : RelationshipId) record delta,
      s.snapshot.graph.relationships[id]? = some record → l.relationships[id]? = some delta →
        delta.record = record) (id : NodeId) :
    s.validateRemovedNode l id .remove = .ok () ↔
      (∀ (rel : RelationshipId) record,
        (s.snapshot.graph.apply l).relationships[rel]? = some record →
          record.source ≠ id ∧ record.target ≠ id) ∧
      (∀ label : LabelId, (s.snapshot.graph.apply l).labels[(id, label)]? = none) ∧
      (∀ key : PropertyKeyId,
        (s.snapshot.graph.apply l).properties[(OwnerKind.node, id, key)]? = none) := by
  have hrelationships := nodeHasRelationshipDependentsAfter_iff hs hstable id
  have hlabels := nodeHasLabelDependentsAfter_iff (l := l) hs.formed id
  obtain ⟨b, hb, hproperties⟩ := ownerHasVisiblePropertyAfter_ok hs.formed hl .node id
  have hnone : (∀ key : PropertyKeyId,
      (s.snapshot.graph.apply l).properties[(OwnerKind.node, id, key)]? = none) ↔ b = false := by
    rw [Bool.eq_false_iff, ne_eq, hproperties, not_exists]
    exact forall_congr' fun key => Option.not_isSome_iff_eq_none.symm
  have hfree : (∀ label : LabelId, (s.snapshot.graph.apply l).labels[(id, label)]? = none) ↔
      s.nodeHasLabelDependentsAfter l id = false := by
    rw [Bool.eq_false_iff, ne_eq, hlabels, not_exists]
    exact forall_congr' fun label => Option.not_isSome_iff_eq_none.symm
  have halone : (∀ (rel : RelationshipId) record,
      (s.snapshot.graph.apply l).relationships[rel]? = some record →
        record.source ≠ id ∧ record.target ≠ id) ↔
      s.nodeHasRelationshipDependentsAfter l id = false := by
    rw [Bool.eq_false_iff, ne_eq, hrelationships]
    simp only [not_exists, not_and, not_or, ne_eq]
  unfold validateRemovedNode nodeHasVisibleDependentsAfter
  rw [hnone, hfree, halone, if_pos rfl, hb]
  cases s.nodeHasRelationshipDependentsAfter l id <;>
    cases s.nodeHasLabelDependentsAfter l id <;> cases b <;>
    simp [corruptWhen, bind, Except.bind, pure, Except.pure]

theorem validateRemovedNodes_ok (hs : s.Sound) (hl : l.Formed)
    (hstable : ∀ (id : RelationshipId) record delta,
      s.snapshot.graph.relationships[id]? = some record → l.relationships[id]? = some delta →
        delta.record = record) :
    s.validateRemovedNodes l = .ok () ↔ ∀ (id : NodeId), l.nodes[id]? = some .remove →
      (∀ (rel : RelationshipId) record,
        (s.snapshot.graph.apply l).relationships[rel]? = some record →
          record.source ≠ id ∧ record.target ≠ id) ∧
      (∀ label : LabelId, (s.snapshot.graph.apply l).labels[(id, label)]? = none) ∧
      (∀ key : PropertyKeyId,
        (s.snapshot.graph.apply l).properties[(OwnerKind.node, id, key)]? = none) := by
  unfold validateRemovedNodes
  rw [forM_eq_ok, forall_mem_toList]
  constructor
  · intro h id hid
    exact (validateRemovedNode_ok hs hl hstable id).mp (h id .remove hid)
  · intro h id op hop
    cases op with
    | add => rfl
    | remove => exact (validateRemovedNode_ok hs hl hstable id).mpr (h id hop)

/-- **What the check accepts.** -/
theorem validateLayer_ok (hs : s.Sound) (hl : l.Formed)
    (hpersisted : ∀ (id : RelationshipId) record,
      s.snapshot.graph.relationships[id]? = some record → record ∈ tuples) :
    s.validateLayer l ids tuples = .ok () ↔ Accepted ids tuples s.snapshot.graph l := by
  have hstable : (∀ (id : RelationshipId) delta, l.relationships[id]? = some delta →
      ∀ record ∈ tuples, record.id = delta.record.id → record = delta.record) →
      ∀ (id : RelationshipId) record delta, s.snapshot.graph.relationships[id]? = some record →
        l.relationships[id]? = some delta → delta.record = record := by
    intro htuple id record delta hrecord hdelta
    have hid : record.id = delta.record.id := by
      rw [graph_keyed hs id record hrecord, hl.keyed id delta hdelta]
    exact (htuple id delta hdelta record (hpersisted id record hrecord) hid).symm
  unfold validateLayer
  simp only [check_bind_eq_ok, validateLayerNodes_ok, validateLayerLabels_ok,
    validateLayerRelationships_ok hs.formed hl, validateLayerProperties_ok]
  constructor
  · rintro ⟨hnodes, hlabels, ⟨hids, hendpoints, horphans⟩, hproperties, hremoved⟩
    refine ⟨hnodes, hlabels, hids, hendpoints, horphans, hproperties, ?_⟩
    exact (validateRemovedNodes_ok hs hl (hstable fun id delta hd =>
      (hids id delta hd).2.2.2.2)).mp hremoved
  · intro h
    refine ⟨h.nodes, h.labels, ⟨h.relationships, h.endpoints, h.orphans⟩, h.properties, ?_⟩
    exact (validateRemovedNodes_ok hs hl (hstable fun id delta hd =>
      (h.relationships id delta hd).2.2.2.2)).mpr h.removed

end IndexedSnapshot

/-! ## 7. What an accepted layer keeps -/

section Keeps

variable {g : GraphState} {l : LayerBuilder} {ids : Identities} {tuples : RelationshipTuples}

theorem GraphState.node_stays {id : NodeId} (h : g.nodes[id]?.isSome)
    (hkept : l.nodes[id]? ≠ some .remove) : (g.apply l).nodes[id]?.isSome := by
  rw [GraphState.nodes_apply]
  cases hop : l.nodes[id]? with
  | none => exact h
  | some op =>
    cases op with
    | add => rfl
    | remove => exact absurd hop hkept

theorem GraphState.relationship_stays (h : g.relationships[id]?.isSome)
    (hkept : ∀ delta, l.relationships[id]? = some delta → delta.op = .add) :
    (g.apply l).relationships[id]?.isSome := by
  rw [GraphState.relationships_apply]
  cases hd : l.relationships[id]? with
  | none => exact h
  | some delta =>
    exact Option.isSome_of_eq_some (RelationshipDelta.change_some.mpr ⟨hkept delta hd, rfl⟩)

theorem GraphState.property_source (hl : l.Formed) {slot : PropertySlot} {value : PropertyValue}
    (h : (g.apply l).properties[slot]? = some value) :
    (∃ delta, l.properties[slot]? = some delta ∧ delta.op = .add) ∨
      g.properties[slot]? = some value := by
  rw [GraphState.properties_apply] at h
  cases hd : l.properties[slot]? with
  | none =>
    rw [hd] at h
    exact Or.inr h
  | some delta =>
    rw [hd] at h
    exact Or.inl ⟨delta, rfl, (hl.values slot delta hd).mpr (Option.isSome_of_eq_some h)⟩

theorem GraphState.relationship_source (h : (g.apply l).relationships[id]? = some record) :
    (∃ delta, l.relationships[id]? = some delta ∧ delta.op = .add ∧ delta.record = record) ∨
      g.relationships[id]? = some record := by
  rw [GraphState.relationships_apply] at h
  cases hd : l.relationships[id]? with
  | none =>
    rw [hd] at h
    exact Or.inr h
  | some delta =>
    rw [hd] at h
    exact Or.inl ⟨delta, rfl, RelationshipDelta.change_some.mp h⟩

theorem GraphState.label_source {row : NodeId × LabelId} (h : (g.apply l).labels[row]?.isSome) :
    l.labels[row]? = some .add ∨ g.labels[row]?.isSome := by
  rw [GraphState.labels_apply] at h
  cases hop : l.labels[row]? with
  | none =>
    rw [hop] at h
    exact Or.inr h
  | some op =>
    rw [hop] at h
    cases op with
    | add => exact Or.inl rfl
    | remove => cases h

theorem GraphState.node_source {id : NodeId} (h : (g.apply l).nodes[id]?.isSome) :
    l.nodes[id]? = some .add ∨ g.nodes[id]?.isSome := by
  rw [GraphState.nodes_apply] at h
  cases hop : l.nodes[id]? with
  | none =>
    rw [hop] at h
    exact Or.inr h
  | some op =>
    rw [hop] at h
    cases op with
    | add => exact Or.inl rfl
    | remove => cases h

/-- **An accepted layer keeps a consistent graph consistent.** -/
theorem consistent_apply (hg : g.Consistent) (hl : l.Formed) (h : Accepted ids tuples g l) :
    (g.apply l).Consistent := by
  constructor
  · intro row hrow
    rcases GraphState.label_source hrow with hadd | hbefore
    · exact (h.labels row .add hadd).2.2 rfl
    · refine GraphState.node_stays (hg.labels row hbefore) fun hremove => ?_
      rw [show row = (row.1, row.2) from rfl, (h.removed row.1 hremove).2.1 row.2] at hrow
      cases hrow
  · intro id record hrecord
    rcases GraphState.relationship_source hrecord with ⟨delta, hd, hop, rfl⟩ | hbefore
    · exact h.endpoints id delta hd hop
    · obtain ⟨hsource, htarget⟩ := hg.endpoints id record hbefore
      constructor
      · refine GraphState.node_stays hsource fun hremove => ?_
        exact ((h.removed _ hremove).1 id record hrecord).1 rfl
      · refine GraphState.node_stays htarget fun hremove => ?_
        exact ((h.removed _ hremove).1 id record hrecord).2 rfl
  · intro slot value hvalue
    rcases GraphState.property_source hl hvalue with ⟨delta, hd, hop⟩ | hbefore
    · exact (h.properties slot delta hd).2.2 hop
    · obtain ⟨kind, owner, key⟩ := slot
      have howner := hg.owners (kind, owner, key) value hbefore
      cases kind with
      | node =>
        refine GraphState.node_stays howner fun hremove => ?_
        rw [(h.removed owner hremove).2.2 key] at hvalue
        cases hvalue
      | relationship =>
        refine GraphState.relationship_stays howner fun delta hd => ?_
        cases hop : delta.op with
        | add => rfl
        | remove =>
          rw [h.orphans owner delta hd hop key] at hvalue
          cases hvalue

/-- **And every identifier in it known.** -/
theorem known_apply (hg : g.Known ids tuples) (hl : l.Formed) (h : Accepted ids tuples g l)
    {tuples' : RelationshipTuples} (hgrow : ∀ record ∈ tuples, record ∈ tuples')
    (hrows : ∀ (id : RelationshipId) delta, l.relationships[id]? = some delta →
      delta.record ∈ tuples') : (g.apply l).Known ids tuples' := by
  constructor
  · intro id hid
    rcases GraphState.node_source hid with hadd | hbefore
    · exact h.nodes id .add hadd
    · exact hg.nodes id hbefore
  · intro row hrow
    rcases GraphState.label_source hrow with hadd | hbefore
    · exact (h.labels row .add hadd).1
    · exact hg.labels row hbefore
  · intro id record hrecord
    rcases GraphState.relationship_source hrecord with ⟨delta, hd, _, rfl⟩ | hbefore
    · obtain ⟨htype, ⟨hpos, hlt⟩, _⟩ := h.relationships id delta hd
      have hid := hl.keyed id delta hd
      exact ⟨hid, hid ▸ hpos, hid ▸ hlt, htype, hrows id delta hd⟩
    · obtain ⟨hid, hpos, hlt, htype, hmem⟩ := hg.relationships id record hbefore
      exact ⟨hid, hpos, hlt, htype, hgrow record hmem⟩
  · intro slot value hvalue
    rcases GraphState.property_source hl hvalue with ⟨delta, hd, _⟩ | hbefore
    · exact (h.properties slot delta hd).1
    · exact hg.properties slot value hbefore

end Keeps

/-! ## 8. Valid snapshots -/

/-- Nothing both exists and is marked removed. -/
structure Snapshot.Unmarked (s : Snapshot) : Prop where
  nodes : ∀ (id : NodeId), s.overlay.nodes[id]? = some .remove → s.nodeExists id = false
  labels : ∀ (node : NodeId) (label : LabelId), s.overlay.labels[(node, label)]? = some .remove →
    s.hasLabel node label = false
  relationships : ∀ (id : RelationshipId) delta, s.overlay.relationships[id]? = some delta →
    delta.op = .remove → s.relationship id = none
  properties : ∀ (slot : PropertySlot) delta, s.overlay.properties[slot]? = some delta →
    delta.op = .remove → s.property slot = none

theorem Snapshot.Formed.unmarked {s : Snapshot} (hs : s.Formed) : s.Unmarked := by
  constructor
  · intro id hop
    unfold Snapshot.nodeExists
    rw [hop]
    rfl
  · intro node label hop
    rw [Snapshot.hasLabel_eq_graph hs]
    unfold Snapshot.graph
    rw [GraphState.labels_apply]
    show ((s.overlay.labels[(node, label)]?.map DeltaOp.change).getD _).isSome = false
    rw [hop]
    rfl
  · intro id delta hdelta hop
    unfold Snapshot.relationship
    rw [hdelta]
    simp [hop]
  · intro slot delta hdelta hop
    unfold Snapshot.property
    rw [hdelta]
    show delta.value = none
    cases hvalue : delta.value with
    | none => rfl
    | some value =>
      have hadd := (hs.values slot delta hdelta).mpr (Option.isSome_of_eq_some hvalue)
      rw [hop] at hadd
      cases hadd

namespace IndexedSnapshot

/-- One more layer over a snapshot, with its access paths. -/
def applyLayer (s : IndexedSnapshot) (l : LayerBuilder) : IndexedSnapshot :=
  ⟨s.checkpoint, s.overlay.apply l⟩

/-- **A snapshot that keeps the invariants**: stored layers of a database, relationships that are
    its rows, and a graph that refers to nothing missing. -/
structure Valid (s : IndexedSnapshot) (tuples : RelationshipTuples) : Prop where
  sound : s.Sound
  baseRows : ∀ (id : RelationshipId) record, s.base.relationships[id]? = some record →
    record ∈ tuples
  overlayRows : ∀ (id : RelationshipId) delta, s.overlay.relationships[id]? = some delta →
    delta.record ∈ tuples
  consistent : s.snapshot.graph.Consistent

variable {s : IndexedSnapshot} {l : LayerBuilder} {ids : Identities} {tuples : RelationshipTuples}

theorem Valid.graphRows (hs : s.Valid tuples)
    (h : s.snapshot.graph.relationships[id]? = some record) : record ∈ tuples := by
  rcases GraphState.relationship_source h with ⟨delta, hdelta, _, rfl⟩ | hbefore
  · exact hs.overlayRows id delta hdelta
  · exact hs.baseRows id record hbefore

theorem snapshot_applyLayer (hs : s.Sound) (hl : l.Formed) :
    (s.applyLayer l).snapshot = s.snapshot.applyLayer l := by
  obtain ⟨_, hoverlay⟩ := IndexedOverlay.applied s.overlay hs.indexed hl.keyed
  show (⟨s.checkpoint, (s.overlay.apply l).toOverlay⟩ : Snapshot) = _
  rw [hoverlay]
  rfl

theorem overlay_applyLayer (hs : s.Sound) (hl : l.Formed) {delta : RelationshipDelta}
    (h : (s.applyLayer l).overlay.relationships[id]? = some delta) :
    l.relationships[id]? = some delta ∨ s.overlay.relationships[id]? = some delta := by
  obtain ⟨_, hoverlay⟩ := IndexedOverlay.applied s.overlay hs.indexed hl.keyed
  have hlook : (s.overlay.toOverlay.apply l).relationships[id]? = some delta := hoverlay ▸ h
  unfold Overlay.apply at hlook
  rw [getElem?_insertEntries] at hlook
  cases hd : l.relationships[id]? with
  | none =>
    rw [hd] at hlook
    exact Or.inr hlook
  | some d =>
    rw [hd] at hlook
    exact Or.inl hlook

theorem sound_applyLayer (hs : s.Sound) (hl : l.Formed)
    (hstable : ∀ (id : RelationshipId) record delta, s.base.relationships[id]? = some record →
      l.relationships[id]? = some delta → delta.record = record) : (s.applyLayer l).Sound := by
  obtain ⟨hindexed, hoverlay⟩ := IndexedOverlay.applied s.overlay hs.indexed hl.keyed
  have hformed : (s.overlay.apply l).toOverlay.layer.Formed := by
    rw [hoverlay]
    exact formed_apply ⟨hs.formed.labels, hs.formed.relationships, hs.formed.keys,
      hs.formed.values⟩ hl
  refine ⟨⟨hformed.labels, hformed.keyed, hformed.keys, hformed.values, hs.formed.base⟩,
    hindexed, fun id record delta hrecord hdelta => ?_⟩
  rcases overlay_applyLayer hs hl hdelta with hnew | hold
  · exact hstable id record delta hrecord hnew
  · exact hs.stable id record delta hrecord hold

/-- **An accepted layer keeps a valid snapshot valid.** -/
theorem valid_applyLayer (hs : s.Valid tuples) (hl : l.Formed)
    (hok : s.validateLayer l ids tuples = .ok ()) :
    (s.applyLayer l).Valid (tuples ++ l.relationships.toList.map fun e => e.2.record) := by
  have haccepted := (validateLayer_ok hs.sound hl fun _ _ h => hs.graphRows h).mp hok
  refine ⟨sound_applyLayer hs.sound hl fun id record delta hrecord hnew => ?_,
    fun id record hrecord => ?_, fun id delta hdelta => ?_, ?_⟩
  · have hid : record.id = delta.record.id := by
      rw [hs.sound.formed.base id record hrecord, hl.keyed id delta hnew]
    exact ((haccepted.relationships id delta hnew).2.2.2.2 record
      (hs.baseRows id record hrecord) hid).symm
  · exact List.mem_append_left _ (hs.baseRows id record hrecord)
  · rcases overlay_applyLayer hs.sound hl hdelta with hnew | hold
    · exact List.mem_append_right _ (List.mem_map.mpr ⟨(id, delta), mem_of_lookup hnew,
        rfl⟩)
    · exact List.mem_append_left _ (hs.overlayRows id delta hold)
  · rw [snapshot_applyLayer hs.sound hl, Snapshot.graph_applyLayer]
    exact consistent_apply hs.consistent hl haccepted

end IndexedSnapshot

end Lithograph.Storage
