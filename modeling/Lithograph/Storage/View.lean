/-
  File:      Lithograph/Storage/View.lean
  Subject:   What a snapshot shows, as a graph of its own, and the readers that stream it
             (`storage/snapshot_stream.rs`, `storage/snapshot_labels.rs`,
             `storage/snapshot_properties.rs`, `storage/snapshot_read.rs`).

  * `visitNodes_eq` and the others: the streams show it, in key order.
-/
import Lithograph.Storage.Snapshot
import Lithograph.Library.Overlay

namespace Lithograph.Storage

open Std Library

/-! ## 1. Layers as changes -/

/-- What an operation leaves in its slot. -/
def DeltaOp.change : DeltaOp → Option Unit
  | .add => some ()
  | .remove => none

def RelationshipDelta.change (delta : RelationshipDelta) : Option RelationshipRecord :=
  if delta.op = .add then some delta.record else none

theorem RelationshipDelta.change_some {delta : RelationshipDelta} {record : RelationshipRecord} :
    delta.change = some record ↔ delta.op = .add ∧ delta.record = record := by
  unfold change
  rw [Option.ite_none_right_eq_some, Option.some.injEq]

/-- The graph after the changes of a layer. -/
def GraphState.apply (g : GraphState) (layer : LayerBuilder) : GraphState where
  nodes := patch g.nodes (layer.nodes.map fun _ op => op.change)
  labels := patch g.labels (layer.labels.map fun _ op => op.change)
  relationships := patch g.relationships (layer.relationships.map fun _ delta => delta.change)
  properties := patch g.properties (layer.properties.map fun _ delta => delta.value)

/-- The overlay as one layer. -/
def Overlay.layer (o : Overlay) : LayerBuilder where
  nodes := o.nodes
  labels := o.labels
  relationships := o.relationships
  properties := o.properties

namespace GraphState

variable (g : GraphState) (l : LayerBuilder)

theorem nodes_apply (id : NodeId) :
    (g.apply l).nodes[id]? = (l.nodes[id]?.map DeltaOp.change).getD g.nodes[id]? := by
  unfold GraphState.apply
  rw [getElem?_patch, ExtTreeMap.getElem?_map]

theorem labels_apply (row : NodeId × LabelId) :
    (g.apply l).labels[row]? = (l.labels[row]?.map DeltaOp.change).getD g.labels[row]? := by
  unfold GraphState.apply
  rw [getElem?_patch, ExtTreeMap.getElem?_map]

theorem relationships_apply (id : RelationshipId) :
    (g.apply l).relationships[id]? =
      (l.relationships[id]?.map RelationshipDelta.change).getD g.relationships[id]? := by
  unfold GraphState.apply
  rw [getElem?_patch, ExtTreeMap.getElem?_map]

theorem properties_apply (slot : PropertySlot) :
    (g.apply l).properties[slot]? =
      (l.properties[slot]?.map PropertyDelta.value).getD g.properties[slot]? := by
  unfold GraphState.apply
  rw [getElem?_patch, ExtTreeMap.getElem?_map]

theorem ext_facts {g g' : GraphState} (hn : ∀ id : NodeId, g.nodes[id]? = g'.nodes[id]?)
    (hl : ∀ row : NodeId × LabelId, g.labels[row]? = g'.labels[row]?)
    (hr : ∀ id : RelationshipId, g.relationships[id]? = g'.relationships[id]?)
    (hp : ∀ slot : PropertySlot, g.properties[slot]? = g'.properties[slot]?) : g = g' := by
  rw [GraphState.mk.injEq]
  exact ⟨ExtTreeMap.ext_getElem? hn, ExtTreeMap.ext_getElem? hl, ExtTreeMap.ext_getElem? hr,
    ExtTreeMap.ext_getElem? hp⟩

theorem apply_empty : g.apply {} = g := by
  refine ext_facts (fun id => ?_) (fun row => ?_) (fun id => ?_) (fun slot => ?_)
  · rw [nodes_apply]
    simp
  · rw [labels_apply]
    simp
  · rw [relationships_apply]
    simp
  · rw [properties_apply]
    simp

/-- **Two layers, one after the other, are one layer.** -/
theorem apply_overlay (o : Overlay) : g.apply (o.apply l).layer = (g.apply o.layer).apply l := by
  refine ext_facts (fun id => ?_) (fun row => ?_) (fun id => ?_) (fun slot => ?_)
  · rw [nodes_apply, nodes_apply, nodes_apply]
    show ((insertEntries o.nodes l.nodes)[id]?.map DeltaOp.change).getD _ = _
    rw [getElem?_insertEntries]
    cases l.nodes[id]? <;> rfl
  · rw [labels_apply, labels_apply, labels_apply]
    show ((insertEntries o.labels l.labels)[row]?.map DeltaOp.change).getD _ = _
    rw [getElem?_insertEntries]
    cases l.labels[row]? <;> rfl
  · rw [relationships_apply, relationships_apply, relationships_apply]
    show ((insertEntries o.relationships l.relationships)[id]?.map RelationshipDelta.change).getD _
      = _
    rw [getElem?_insertEntries]
    cases l.relationships[id]? <;> rfl
  · rw [properties_apply, properties_apply, properties_apply]
    show ((insertEntries o.properties l.properties)[slot]?.map PropertyDelta.value).getD _ = _
    rw [getElem?_insertEntries]
    cases l.properties[slot]? <;> rfl

end GraphState

variable {s : Snapshot}

/-! ## 2. What a snapshot shows -/

namespace Snapshot

/-- The checkpoint, empty where there is none. -/
def base (s : Snapshot) : GraphState := s.checkpoint.getD {}

/-- The graph a snapshot shows. -/
def graph (s : Snapshot) : GraphState := s.base.apply s.overlay.layer

/-- **One more layer changes what a snapshot shows by that layer.** -/
theorem graph_applyLayer (s : Snapshot) (l : LayerBuilder) :
    (s.applyLayer l).graph = s.graph.apply l :=
  GraphState.apply_overlay s.base l s.overlay

theorem nodeExists_eq (s : Snapshot) (id : NodeId) :
    s.nodeExists id = s.graph.nodes[id]?.isSome := by
  unfold nodeExists graph base
  rw [GraphState.nodes_apply]
  show _ = ((s.overlay.nodes[id]?.map DeltaOp.change).getD _).isSome
  cases s.overlay.nodes[id]? with
  | some op => cases op <;> rfl
  | none =>
    cases s.checkpoint with
    | none => simp
    | some cp => exact ExtTreeMap.contains_eq_isSome_getElem?

theorem relationship_eq (s : Snapshot) (id : RelationshipId) :
    s.relationship id = s.graph.relationships[id]? := by
  unfold relationship graph base
  rw [GraphState.relationships_apply]
  show _ = (s.overlay.relationships[id]?.map RelationshipDelta.change).getD _
  cases s.overlay.relationships[id]? with
  | some delta => rfl
  | none => cases s.checkpoint <;> simp

theorem property_eq (s : Snapshot) (slot : PropertySlot) :
    s.property slot = s.graph.properties[slot]? := by
  unfold property graph base
  rw [GraphState.properties_apply]
  show _ = (s.overlay.properties[slot]?.map PropertyDelta.value).getD _
  cases s.overlay.properties[slot]? with
  | some delta => rfl
  | none => cases s.checkpoint <;> simp

/-- What the constructors of layers see to, kept by an overlay of such layers. -/
structure Formed (s : Snapshot) : Prop where
  labels : ∀ (row : NodeId × LabelId) op, s.overlay.labels[row]? = some op → 0 < row.2
  relationships : ∀ (id : RelationshipId) delta, s.overlay.relationships[id]? = some delta →
    delta.record.id = id
  keys : ∀ (slot : PropertySlot) delta, s.overlay.properties[slot]? = some delta → 0 < slot.2.2
  values : ∀ (slot : PropertySlot) delta, s.overlay.properties[slot]? = some delta →
    (delta.op = .add ↔ delta.value.isSome)
  base : ∀ (id : RelationshipId) r, s.base.relationships[id]? = some r → r.id = id

theorem hasLabel_eq_graph (hs : s.Formed) (node : NodeId) (label : LabelId) :
    s.hasLabel node label = s.graph.labels[(node, label)]?.isSome := by
  rw [hasLabel_eq, labelSet_lookup]
  unfold graph base
  rw [GraphState.labels_apply]
  show _ = ((s.overlay.labels[(node, label)]?.map DeltaOp.change).getD _).isSome
  cases hop : s.overlay.labels[(node, label)]? with
  | some op =>
    have hpos : 0 ≤ label := Int.le_of_lt (hs.labels _ op hop)
    cases op <;> simp [hpos, DeltaOp.change]
  | none => cases s.checkpoint <;> simp

/-! ## 3. The streams -/

/-- `visit_nodes`: the ids it hands out, in order. -/
def visitNodes (s : Snapshot) : List NodeId :=
  (mergeChanges s.base.nodes.toList (s.overlay.nodes.map fun _ op => op.change).toList).map Prod.fst

def visitLabels (s : Snapshot) : List (NodeId × LabelId) :=
  (mergeChanges s.base.labels.toList (s.overlay.labels.map fun _ op => op.change).toList).map
    Prod.fst

def visitRelationships (s : Snapshot) : List RelationshipRecord :=
  (mergeChanges s.base.relationships.toList
    (s.overlay.relationships.map fun _ delta => delta.change).toList).map Prod.snd

/-- What `visit_property_delta` hands out. -/
def visiblePropertyDelta (delta : PropertyDelta) : StorageResult (Option PropertyValue) :=
  match delta.op, delta.value with
  | .add, some value => .ok (some value)
  | .add, none => .error (.corrupt "set property delta is missing value")
  | .remove, _ => .ok none

/-- The changes of properties, each with the value it hands out. -/
def visiblePropertyDeltas (deltas : List (PropertySlot × PropertyDelta)) :
    StorageResult (List (PropertySlot × Option PropertyValue)) :=
  deltas.mapM fun e => do
    let value ← visiblePropertyDelta e.2
    pure (e.1, value)

def visitProperties (s : Snapshot) : StorageResult (List (PropertySlot × PropertyValue)) := do
  let changes ← visiblePropertyDeltas s.overlay.properties.toList
  pure (mergeChanges s.base.properties.toList changes)

/-- `visit_node_labels`: the label rows of one node. -/
def visitNodeLabels (s : Snapshot) (node : NodeId) : List LabelId :=
  (mergeChanges (s.base.labels.toList.filter fun e => e.1.1 = node)
    ((s.overlay.labels.map fun _ op => op.change).toList.filter fun e =>
      e.1.1 = node ∧ 0 ≤ e.1.2)).map fun e => e.1.2

/-- `visit_owner_properties`: the property rows of one owner. -/
def visitOwnerProperties (s : Snapshot) (kind : OwnerKind) (owner : Int) :
    StorageResult (List (PropertySlot × PropertyValue)) := do
  let changes ← visiblePropertyDeltas (s.overlay.properties.toList.filter fun e =>
    e.1.1 = kind ∧ e.1.2.1 = owner ∧ 0 ≤ e.1.2.2)
  pure (mergeChanges (s.base.properties.toList.filter fun e => e.1.1 = kind ∧ e.1.2.1 = owner)
    changes)

theorem visitNodes_eq (s : Snapshot) : s.visitNodes = s.graph.nodes.toList.map Prod.fst := by
  unfold visitNodes
  rw [mergeChanges_toList]
  rfl

theorem visitLabels_eq (s : Snapshot) : s.visitLabels = s.graph.labels.toList.map Prod.fst := by
  unfold visitLabels
  rw [mergeChanges_toList]
  rfl

theorem visitRelationships_eq (s : Snapshot) :
    s.visitRelationships = s.graph.relationships.toList.map Prod.snd := by
  unfold visitRelationships
  rw [mergeChanges_toList]
  rfl

theorem visiblePropertyDeltas_eq {deltas : List (PropertySlot × PropertyDelta)}
    (h : ∀ e ∈ deltas, e.2.op = .add ↔ e.2.value.isSome) :
    visiblePropertyDeltas deltas = .ok (deltas.map fun e => (e.1, e.2.value)) := by
  unfold visiblePropertyDeltas
  induction deltas with
  | nil => rfl
  | cons e deltas ih =>
    have hvalue : visiblePropertyDelta e.2 = .ok e.2.value := by
      have he := h e (.head _)
      unfold visiblePropertyDelta
      cases hop : e.2.op with
      | add =>
        cases hv : e.2.value with
        | some value => rfl
        | none =>
          rw [hop, hv] at he
          exact absurd (he.mp rfl) (by simp)
      | remove =>
        cases hv : e.2.value with
        | some value =>
          rw [hop, hv] at he
          exact absurd (he.mpr rfl) (by simp)
        | none => rfl
    rw [List.mapM_cons, hvalue, ih fun d hd => h d (.tail _ hd)]
    rfl

theorem visitProperties_eq (hs : s.Formed) : s.visitProperties = .ok s.graph.properties.toList := by
  have hvalues : ∀ e ∈ s.overlay.properties.toList, e.2.op = .add ↔ e.2.value.isSome :=
    fun e he => hs.values e.1 e.2 (lookup_of_mem he)
  unfold visitProperties
  rw [visiblePropertyDeltas_eq hvalues, ok_bind,
    ← ExtTreeMap.toList_map (f := fun _ (delta : PropertyDelta) => delta.value),
    mergeChanges_toList]
  rfl

theorem visitNodeLabels_eq (hs : s.Formed) (node : NodeId) : s.visitNodeLabels node =
      (s.graph.labels.toList.filter fun e => e.1.1 = node).map fun e => e.1.2 := by
  have hrange : ((s.overlay.labels.map fun _ op => op.change).toList.filter fun e =>
      decide (e.1.1 = node ∧ 0 ≤ e.1.2)) =
        (s.overlay.labels.map fun _ op => op.change).toList.filter fun e =>
          decide (e.1.1 = node) := by
    refine List.filter_congr fun e he => ?_
    have hentry := lookup_of_mem he
    rw [ExtTreeMap.getElem?_map, Option.map_eq_some_iff] at hentry
    obtain ⟨op, hop, _⟩ := hentry
    have hpos := hs.labels e.1 op hop
    simp [Int.le_of_lt hpos]
  have hmerge := mergeChanges_filter s.base.labels (s.overlay.labels.map fun _ op => op.change)
    fun row => decide (row.1 = node)
  unfold visitNodeLabels
  rw [hrange]
  exact congrArg (List.map fun e : (NodeId × LabelId) × Unit => e.1.2) hmerge

theorem contains_visitNodeLabels (hs : s.Formed) (row : NodeId × LabelId) :
    (s.visitNodeLabels row.1).contains row.2 = s.graph.labels[row]?.isSome := by
  rw [Bool.eq_iff_iff, List.contains_iff_mem, visitNodeLabels_eq hs, List.mem_map]
  constructor
  · rintro ⟨e, he, hlabel⟩
    obtain ⟨he, hnode⟩ := List.mem_filter.mp he
    have hrow : e.1 = row := Prod.ext (of_decide_eq_true hnode) hlabel
    rw [← hrow, lookup_of_mem he]
    rfl
  · intro hrow
    obtain ⟨u, hu⟩ := Option.isSome_iff_exists.mp hrow
    exact ⟨(row, u), List.mem_filter.mpr ⟨mem_of_lookup hu, decide_eq_true rfl⟩, rfl⟩

theorem visitOwnerProperties_eq (hs : s.Formed) (kind : OwnerKind) (owner : Int) :
    s.visitOwnerProperties kind owner =
      .ok (s.graph.properties.toList.filter fun e => e.1.1 = kind ∧ e.1.2.1 = owner) := by
  have hrange : (s.overlay.properties.toList.filter fun e =>
      decide (e.1.1 = kind ∧ e.1.2.1 = owner ∧ 0 ≤ e.1.2.2)) =
        s.overlay.properties.toList.filter fun e => decide (e.1.1 = kind ∧ e.1.2.1 = owner) := by
    refine List.filter_congr fun e he => ?_
    have hpos := hs.keys e.1 e.2 (lookup_of_mem he)
    simp [Int.le_of_lt hpos]
  have hvalues : ∀ e ∈ s.overlay.properties.toList.filter (fun e =>
      decide (e.1.1 = kind ∧ e.1.2.1 = owner)), e.2.op = .add ↔ e.2.value.isSome :=
    fun e he => hs.values e.1 e.2 (lookup_of_mem (List.mem_of_mem_filter he))
  have hmap : (s.overlay.properties.toList.filter fun e =>
      decide (e.1.1 = kind ∧ e.1.2.1 = owner)).map (fun e => (e.1, e.2.value)) =
        (s.overlay.properties.map fun _ delta => delta.value).toList.filter fun e =>
          decide (e.1.1 = kind ∧ e.1.2.1 = owner) := by
    rw [ExtTreeMap.toList_map, List.filter_map]
    rfl
  have hmerge := mergeChanges_filter s.base.properties
    (s.overlay.properties.map fun _ delta => delta.value)
    fun slot => decide (slot.1 = kind ∧ slot.2.1 = owner)
  unfold visitOwnerProperties
  rw [hrange, visiblePropertyDeltas_eq hvalues, ok_bind, hmap]
  exact congrArg Except.ok hmerge

end Snapshot

end Lithograph.Storage
