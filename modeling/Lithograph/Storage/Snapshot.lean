/-
  File:      Lithograph/Storage/Snapshot.lean
  Subject:   The graph a commit shows: a checkpoint under an overlay of later layers
             (`storage/snapshot.rs`, `storage/snapshot_overlay.rs`, `storage/snapshot_staged.rs`).

  A reader asks the overlay first. Here are the readers, the staging of one more layer
  (`applyLayer`) and what each reader answers after it. Left out: the secondary views of the overlay
  and the property cache.
-/
import Lithograph.Storage.Layer

namespace Lithograph.Storage

open Std Library

/-- The four kinds of facts of a graph, as the rows of a checkpoint list them. -/
structure GraphState where
  nodes : ExtTreeMap NodeId Unit := ∅
  labels : ExtTreeMap (NodeId × LabelId) Unit := ∅
  relationships : ExtTreeMap RelationshipId RelationshipRecord := ∅
  properties : ExtTreeMap PropertySlot PropertyValue := ∅

/-- `Overlay`: the latest word of the layers on each slot they touch. -/
structure Overlay where
  nodes : ExtTreeMap NodeId DeltaOp := ∅
  labels : ExtTreeMap (NodeId × LabelId) DeltaOp := ∅
  relationships : ExtTreeMap RelationshipId RelationshipDelta := ∅
  properties : ExtTreeMap PropertySlot PropertyDelta := ∅

def Overlay.apply (o : Overlay) (layer : LayerBuilder) : Overlay where
  nodes := insertEntries o.nodes layer.nodes
  labels := insertEntries o.labels layer.labels
  relationships := insertEntries o.relationships layer.relationships
  properties := insertEntries o.properties layer.properties

structure Snapshot where
  checkpoint : Option GraphState := none
  overlay : Overlay := {}

namespace Snapshot

/-! ## 1. The readers -/

def nodeExists (s : Snapshot) (id : NodeId) : Bool :=
  match s.overlay.nodes[id]? with
  | some op => op == .add
  | none =>
    match s.checkpoint with
    | none => false
    | some cp => cp.nodes.contains id

/-- One label row of the checkpoint: taken unless the overlay has a word on it. -/
def checkpointLabel (s : Snapshot) (node : NodeId) (acc : ExtTreeMap LabelId Unit)
    (row : NodeId × LabelId) (_ : Unit) : ExtTreeMap LabelId Unit :=
  if row.1 = node ∧ s.overlay.labels[row]? = none then acc.insert row.2 () else acc

/-- One label entry of the overlay, in the range of the node. -/
def overlayLabel (node : NodeId) (acc : ExtTreeMap LabelId Unit) (row : NodeId × LabelId)
    (op : DeltaOp) : ExtTreeMap LabelId Unit :=
  if row.1 = node ∧ 0 ≤ row.2 then
    match op with
    | .add => acc.insert row.2 ()
    | .remove => acc.erase row.2
  else acc

/-- The rows of the checkpoint the overlay says nothing about, then the overlay's own word. -/
def labelSet (s : Snapshot) (node : NodeId) : ExtTreeMap LabelId Unit :=
  let base := match s.checkpoint with
    | none => ∅
    | some cp => cp.labels.foldl (s.checkpointLabel node) ∅
  s.overlay.labels.foldl (overlayLabel node) base

/-- `labels`: the label ids of one node in ascending order. -/
def labels (s : Snapshot) (node : NodeId) : List LabelId := (s.labelSet node).keys

/-- `labels(node)?.binary_search(&label).is_ok()`, on a sorted list. -/
def hasLabel (s : Snapshot) (node : NodeId) (label : LabelId) : Bool :=
  (s.labels node).contains label

def relationship (s : Snapshot) (id : RelationshipId) : Option RelationshipRecord :=
  match s.overlay.relationships[id]? with
  | some delta => if delta.op = .add then some delta.record else none
  | none =>
    match s.checkpoint with
    | none => none
    | some cp => cp.relationships[id]?

/-- `with_property`. -/
def property (s : Snapshot) (slot : PropertySlot) : Option PropertyValue :=
  match s.overlay.properties[slot]? with
  | some delta => delta.value
  | none =>
    match s.checkpoint with
    | none => none
    | some cp => cp.properties[slot]?

/-- The snapshot with one more layer over it. -/
def applyLayer (s : Snapshot) (layer : LayerBuilder) : Snapshot :=
  { s with overlay := s.overlay.apply layer }

/-- `apply_layer_checked`: the layer is hashed first (its canonical bytes must exist), then
    published. -/
def applyLayerChecked (s : Snapshot) (layer : LayerBuilder) : StorageResult Snapshot := do
  let _ ← layer.hashedBytes
  pure (s.applyLayer layer)

/-! ## 2. What the readers answer after a layer -/

variable {l : LayerBuilder} (s : Snapshot)

theorem nodeExists_applyLayer (l : LayerBuilder) (id : NodeId) :
    (s.applyLayer l).nodeExists id =
      match l.nodes[id]? with
      | some op => op == .add
      | none => s.nodeExists id := by
  simp only [nodeExists, applyLayer, Overlay.apply, getElem?_insertEntries]
  cases l.nodes[id]? <;> rfl

theorem relationship_applyLayer (l : LayerBuilder) (id : RelationshipId) :
    (s.applyLayer l).relationship id =
      match l.relationships[id]? with
      | some delta => if delta.op = .add then some delta.record else none
      | none => s.relationship id := by
  simp only [relationship, applyLayer, Overlay.apply, getElem?_insertEntries]
  cases l.relationships[id]? <;> rfl

theorem property_applyLayer (l : LayerBuilder) (slot : PropertySlot) :
    (s.applyLayer l).property slot =
      match l.properties[slot]? with
      | some delta => delta.value
      | none => s.property slot := by
  simp only [property, applyLayer, Overlay.apply, getElem?_insertEntries]
  cases l.properties[slot]? <;> rfl

theorem labelSet_lookup (node : NodeId) (label : LabelId) :
    (s.labelSet node)[label]? =
      match s.overlay.labels[(node, label)]? with
      | some op => if 0 ≤ label ∧ op = .add then some () else none
      | none =>
        match s.checkpoint with
        | none => none
        | some cp => cp.labels[(node, label)]? := by
  have hcp : ∀ cp : GraphState, (cp.labels.foldl (s.checkpointLabel node) ∅)[label]? =
      if s.overlay.labels[(node, label)]? = none then cp.labels[(node, label)]? else none := by
    intro cp
    rw [foldl_row_lookup (fun row _ old => if s.overlay.labels[row]? = none then some () else old)
      node (fun acc row v hr => by simp [checkpointLabel, hr])
      (fun acc row v hr b => by
        unfold checkpointLabel
        by_cases ho : s.overlay.labels[row]? = none
        · simp only [hr, ho, true_and, if_true]
          exact lookup_insert acc row.2 b ()
        · simp [ho])]
    cases cp.labels[(node, label)]? <;> simp
  unfold labelSet
  rw [foldl_row_lookup (fun row op old => if 0 ≤ row.2 then
      (match op with
        | .add => some ()
        | .remove => none) else old) node
    (fun acc row v hr => by simp [overlayLabel, hr])
    (fun acc row op hr b => by
      unfold overlayLabel
      by_cases h0 : 0 ≤ row.2
      · cases op
        · simp only [hr, h0, true_and, if_true]
          exact lookup_insert acc row.2 b ()
        · simp only [hr, h0, true_and, if_true]
          exact lookup_erase acc row.2 b
      · simp [h0])]
  cases s.checkpoint with
  | none =>
    cases s.overlay.labels[(node, label)]? with
    | none => simp
    | some op => cases op <;> simp
  | some cp =>
    simp only [hcp]
    cases s.overlay.labels[(node, label)]? with
    | none => simp
    | some op => cases op <;> simp

theorem hasLabel_eq (node : NodeId) (label : LabelId) :
    s.hasLabel node label = ((s.labelSet node)[label]?).isSome := by
  unfold hasLabel labels
  rw [Bool.eq_iff_iff]
  simp [ExtTreeMap.mem_keys]

theorem hasLabel_applyLayer (l : LayerBuilder) (node : NodeId) (label : LabelId)
    (hl : ∀ op, l.labels[(node, label)]? = some op → 0 < label) :
    (s.applyLayer l).hasLabel node label =
      match l.labels[(node, label)]? with
      | some op => op == .add
      | none => s.hasLabel node label := by
  simp only [hasLabel_eq, labelSet_lookup, applyLayer, Overlay.apply, getElem?_insertEntries]
  cases h : l.labels[(node, label)]? with
  | none => rfl
  | some op =>
    have h0 : 0 ≤ label := Int.le_of_lt (hl op h)
    cases op <;> simp [h0]

theorem nodeExists_silent {s : Snapshot} (h : l.nodes = ∅) :
    (s.applyLayer l).nodeExists = s.nodeExists := by
  funext id
  simp [nodeExists_applyLayer, h]

theorem hasLabel_silent {s : Snapshot} (h : l.labels = ∅) :
    (s.applyLayer l).hasLabel = s.hasLabel := by
  funext node label
  rw [hasLabel_applyLayer _ _ _ _ (by simp [h])]
  simp [h]

theorem relationship_silent {s : Snapshot} (h : l.relationships = ∅) :
    (s.applyLayer l).relationship = s.relationship := by
  funext id
  simp [relationship_applyLayer, h]

theorem property_silent {s : Snapshot} (h : l.properties = ∅) :
    (s.applyLayer l).property = s.property := by
  funext slot
  simp [property_applyLayer, h]

theorem labels_congr {s t : Snapshot} {node : NodeId}
    (h : ∀ label, s.hasLabel node label = t.hasLabel node label) :
    s.labels node = t.labels node := by
  unfold labels
  congr 1
  refine ExtTreeMap.ext_getElem? fun label => ?_
  have hl := h label
  rw [hasLabel_eq, hasLabel_eq] at hl
  cases hs : (s.labelSet node)[label]? <;> cases ht : (t.labelSet node)[label]? <;>
    simp_all

/-! ## 3. Layers of one entry -/

end Snapshot

/-- The change of an existence as a layer entry. -/
def existenceOp (current : Bool) : DeltaOp := if current then .add else .remove

/-- The change of a property as a layer entry. -/
def propertyChange : Option PropertyValue → PropertyDelta
  | some value => ⟨.add, some value⟩
  | none => ⟨.remove, none⟩

namespace LayerBuilder

def ofNode (id : NodeId) (current : Bool) : LayerBuilder where
  nodes := (∅ : ExtTreeMap NodeId DeltaOp).insert id (existenceOp current)

def ofLabel (node : NodeId) (label : LabelId) (current : Bool) : LayerBuilder where
  labels := (∅ : ExtTreeMap (NodeId × LabelId) DeltaOp).insert (node, label) (existenceOp current)

def ofRelationship (record : RelationshipRecord) (op : DeltaOp) : LayerBuilder where
  relationships := (∅ : ExtTreeMap RelationshipId RelationshipDelta).insert record.id ⟨op, record⟩

def ofProperty (slot : PropertySlot) (current : Option PropertyValue) : LayerBuilder where
  properties := (∅ : ExtTreeMap PropertySlot PropertyDelta).insert slot (propertyChange current)

end LayerBuilder

namespace Snapshot

variable (s : Snapshot)

theorem nodeExists_ofNode (id : NodeId) (current : Bool) (j : NodeId) :
    (s.applyLayer (.ofNode id current)).nodeExists j =
      if j = id then current else s.nodeExists j := by
  rw [nodeExists_applyLayer, LayerBuilder.ofNode, lookup_insert]
  by_cases hj : j = id
  · cases current <;> simp [hj, existenceOp]
  · simp [hj]

theorem hasLabel_ofLabel (node : NodeId) (label : LabelId) (current : Bool)
    (hl : 0 < label) (n : NodeId) (j : LabelId) :
    (s.applyLayer (.ofLabel node label current)).hasLabel n j =
      if (n, j) = (node, label) then current else s.hasLabel n j := by
  have hlook : (LayerBuilder.ofLabel node label current).labels[(n, j)]? =
      if (n, j) = (node, label) then some (existenceOp current) else none := by
    rw [LayerBuilder.ofLabel, lookup_insert]
    simp
  rw [hasLabel_applyLayer, hlook]
  · by_cases hj : (n, j) = (node, label)
    · cases current <;> simp [hj, existenceOp]
    · simp [hj]
  · intro op hop
    rw [hlook] at hop
    split at hop
    · rename_i hj
      cases hj
      exact hl
    · cases hop

theorem relationship_ofRelationship (record : RelationshipRecord) (op : DeltaOp)
    (j : RelationshipId) :
    (s.applyLayer (.ofRelationship record op)).relationship j =
      if j = record.id then (if op = .add then some record else none) else s.relationship j := by
  rw [relationship_applyLayer, LayerBuilder.ofRelationship, lookup_insert]
  by_cases hj : j = record.id
  · simp [hj]
  · simp [hj]

theorem property_ofProperty (slot : PropertySlot)
    (current : Option PropertyValue) (j : PropertySlot) :
    (s.applyLayer (.ofProperty slot current)).property j =
      if j = slot then current else s.property j := by
  rw [property_applyLayer, LayerBuilder.ofProperty, lookup_insert]
  by_cases hj : j = slot
  · cases current <;> simp [hj, propertyChange]
  · simp [hj]

/-! ## 4. Well-formed snapshots and equal views -/

/-- What every stored snapshot satisfies: positive ids, a relationship under its own, values with
    canonical bytes. -/
structure WellFormed (s : Snapshot) : Prop where
  keyed : ∀ id r, s.relationship id = some r → r.id = id
  positive : ∀ id r, s.relationship id = some r → r.Positive
  encodable : ∀ slot v, s.property slot = some v → ∃ bytes, v.canonicalBytes = .ok bytes

theorem wellFormed_congr {s t : Snapshot} (hr : t.relationship = s.relationship)
    (hp : t.property = s.property) (h : s.WellFormed) : t.WellFormed where
  keyed := by
    rw [hr]
    exact h.keyed
  positive := by
    rw [hr]
    exact h.positive
  encodable := by
    rw [hp]
    exact h.encodable

/-- Two snapshots that answer every question alike (property values up to canonical form). -/
structure SameView (s t : Snapshot) : Prop where
  nodeExists : ∀ id, s.nodeExists id = t.nodeExists id
  labels : ∀ node, s.labels node = t.labels node
  relationship : ∀ id, s.relationship id = t.relationship id
  property : ∀ slot, SameProperty (s.property slot) (t.property slot)

end Snapshot

end Lithograph.Storage
