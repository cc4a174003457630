/-
  File:      Lithograph/Storage/OverlayIndex.lean
  Subject:   The overlay with its access paths: labels by label, relationships by either endpoint
             (`storage/snapshot.rs`, `storage/snapshot_overlay.rs`).

  * `applyRows_persisted`: a stored layer is applied from its rows.
-/
import Lithograph.Storage.View
import Lithograph.Storage.LayerRows

namespace Lithograph.Storage

open Std Library

/-- The key of an adjacency map: a node, the type, the node at the other end, the relationship. -/
abbrev AdjacencyIndexKey := NodeId × RelationshipTypeId × NodeId × RelationshipId

instance : TransOrd AdjacencyIndexKey := inferInstance

def outgoingKey (record : RelationshipRecord) : AdjacencyIndexKey :=
  (record.source, record.typeId, record.target, record.id)

def incomingKey (record : RelationshipRecord) : AdjacencyIndexKey :=
  (record.target, record.typeId, record.source, record.id)

/-- `Overlay`, with the access paths the scans use. -/
structure IndexedOverlay extends Overlay where
  labelsByLabel : ExtTreeMap (LabelId × NodeId) DeltaOp := ∅
  outgoing : ExtTreeMap AdjacencyIndexKey RelationshipDelta := ∅
  incoming : ExtTreeMap AdjacencyIndexKey RelationshipDelta := ∅

variable {relationships : ExtTreeMap RelationshipId RelationshipDelta}
  {key : RelationshipRecord → AdjacencyIndexKey}
  {index : ExtTreeMap AdjacencyIndexKey RelationshipDelta} {id : RelationshipId}
  {o : IndexedOverlay}

namespace IndexedOverlay

/-! ## 1. Changes -/

/-- `insert_node_observed`. -/
def insertNode (o : IndexedOverlay) (id : NodeId) (op : DeltaOp) : IndexedOverlay :=
  { o with nodes := o.nodes.insert id op }

/-- `insert_label_observed`. -/
def insertLabel (o : IndexedOverlay) (row : NodeId × LabelId) (op : DeltaOp) : IndexedOverlay :=
  { o with labels := o.labels.insert row op
           labelsByLabel := o.labelsByLabel.insert (row.2, row.1) op }

/-- The removal of the entries of what was there under the same id. -/
def removePrevious (o : IndexedOverlay) (id : RelationshipId) : IndexedOverlay :=
  match o.relationships[id]? with
  | some previous =>
    { o with outgoing := o.outgoing.erase (outgoingKey previous.record)
             incoming := o.incoming.erase (incomingKey previous.record) }
  | none => o

def applyRelationshipDelta (o : IndexedOverlay) (id : RelationshipId) (delta : RelationshipDelta) :
    IndexedOverlay :=
  let o := o.removePrevious id
  { o with outgoing := o.outgoing.insert (outgoingKey delta.record) delta
           incoming := o.incoming.insert (incomingKey delta.record) delta
           relationships := o.relationships.insert id delta }

/-- `insert_property_observed`. -/
def insertProperty (o : IndexedOverlay) (slot : PropertySlot) (delta : PropertyDelta) :
    IndexedOverlay :=
  { o with properties := o.properties.insert slot delta }

/-- `Overlay::apply`, and `apply_layer_observed`. -/
def apply (o : IndexedOverlay) (layer : LayerBuilder) : IndexedOverlay :=
  let o := layer.nodes.foldl insertNode o
  let o := layer.labels.foldl insertLabel o
  let o := layer.relationships.foldl applyRelationshipDelta o
  layer.properties.foldl insertProperty o

/-- `apply_persisted_layer_observed`: the same from the stored rows, one after the other. -/
def applyRows (o : IndexedOverlay) (rows : LayerRows) : StorageResult IndexedOverlay := do
  let o ← rows.visitNodes (fun o id op => pure (o.insertNode id op)) o
  let o ← rows.visitLabels (fun o row op => pure (o.insertLabel row op)) o
  let o ← rows.visitRelationships
    (fun o delta => pure (o.applyRelationshipDelta delta.record.id delta)) o
  rows.visitProperties (fun o slot delta => pure (o.insertProperty slot delta)) o

/-! ## 2. Each access path is the image of its table -/

/-- An adjacency map holds each change under its key, and nothing else. -/
def Mirrors (relationships : ExtTreeMap RelationshipId RelationshipDelta)
    (key : RelationshipRecord → AdjacencyIndexKey)
    (index : ExtTreeMap AdjacencyIndexKey RelationshipDelta) : Prop :=
  ∀ (k : AdjacencyIndexKey) delta, index[k]? = some delta ↔
    relationships[k.2.2.2]? = some delta ∧ key delta.record = k

/-- **Each access path is the image of its table.** -/
structure Indexed (o : IndexedOverlay) : Prop where
  labels : ∀ (row : NodeId × LabelId), o.labelsByLabel[(row.2, row.1)]? = o.labels[row]?
  keyed : ∀ (id : RelationshipId) delta, o.relationships[id]? = some delta → delta.record.id = id
  outgoing : Mirrors o.relationships outgoingKey o.outgoing
  incoming : Mirrors o.relationships incomingKey o.incoming

theorem indexed_empty : Indexed {} := by
  constructor
  · simp
  · intro id delta h
    simp at h
  · intro k delta
    simp
  · intro k delta
    simp

theorem mirrors_insert (hkey : ∀ r, (key r).2.2.2 = r.id) (h : Mirrors relationships key index)
    {delta : RelationshipDelta} (hid : delta.record.id = id)
    {index' : ExtTreeMap AdjacencyIndexKey RelationshipDelta}
    (hprevious : ∀ k : AdjacencyIndexKey, index'[k]? =
      if k.2.2.2 = id then none else index[k]?) :
    Mirrors (relationships.insert id delta) key (index'.insert (key delta.record) delta) := by
  intro k d
  rw [lookup_insert, lookup_insert, hprevious]
  by_cases hk : k.2.2.2 = id
  · rw [if_pos hk, if_pos hk]
    constructor
    · intro hd
      split at hd
      · rename_i heq
        exact ⟨hd, by rw [← Option.some.inj hd, heq]⟩
      · cases hd
    · rintro ⟨hd, hkd⟩
      rw [← Option.some.inj hd] at hkd ⊢
      rw [if_pos hkd.symm]
  · rw [if_neg hk, if_neg hk]
    have hne : k ≠ key delta.record := by
      intro heq
      rw [heq, hkey, hid] at hk
      exact hk rfl
    rw [if_neg hne]
    exact h k d

theorem getElem?_erase_previous (hkey : ∀ r, (key r).2.2.2 = r.id)
    (h : Mirrors relationships key index) {previous : RelationshipDelta}
    (hid : previous.record.id = id) (hprevious : relationships[id]? = some previous)
    (k : AdjacencyIndexKey) :
    (index.erase (key previous.record))[k]? = if k.2.2.2 = id then none else index[k]? := by
  rw [lookup_erase]
  by_cases hk : k = key previous.record
  · rw [if_pos hk, hk, hkey, if_pos hid]
  · rw [if_neg hk]
    by_cases hki : k.2.2.2 = id
    · rw [if_pos hki]
      cases hd : index[k]? with
      | none => rfl
      | some d =>
        obtain ⟨hd, hkd⟩ := (h k d).mp hd
        rw [hki, hprevious] at hd
        cases hd
        exact absurd hkd.symm hk
    · rw [if_neg hki]

theorem getElem?_no_previous (h : Mirrors relationships key index)
    (hprevious : relationships[id]? = none) (k : AdjacencyIndexKey) :
    index[k]? = if k.2.2.2 = id then none else index[k]? := by
  split
  · rename_i hk
    cases hd : index[k]? with
    | none => rfl
    | some d =>
      have := ((h k d).mp hd).1
      rw [hk, hprevious] at this
      cases this
  · rfl

/-- **A change of a relationship keeps the access paths.** -/
theorem indexed_applyRelationshipDelta (h : Indexed o) {delta : RelationshipDelta}
    (hid : delta.record.id = id) : Indexed (o.applyRelationshipDelta id delta) ∧
      (o.applyRelationshipDelta id delta).toOverlay =
        { o.toOverlay with relationships := o.relationships.insert id delta } := by
  unfold applyRelationshipDelta removePrevious
  cases hprevious : o.relationships[id]? with
  | none =>
    refine ⟨⟨h.labels, fun j d hj => ?_, ?_, ?_⟩, rfl⟩
    · rw [lookup_insert] at hj
      split at hj
      · rename_i hji
        cases hj
        rw [hid, hji]
      · exact h.keyed j d hj
    · exact mirrors_insert (fun _ => rfl) h.outgoing hid (getElem?_no_previous h.outgoing hprevious)
    · exact mirrors_insert (fun _ => rfl) h.incoming hid (getElem?_no_previous h.incoming hprevious)
  | some previous =>
    have hpid := h.keyed id previous hprevious
    refine ⟨⟨h.labels, fun j d hj => ?_, ?_, ?_⟩, rfl⟩
    · rw [lookup_insert] at hj
      split at hj
      · rename_i hji
        cases hj
        rw [hid, hji]
      · exact h.keyed j d hj
    · exact mirrors_insert (fun _ => rfl) h.outgoing hid
        (getElem?_erase_previous (fun _ => rfl) h.outgoing hpid hprevious)
    · exact mirrors_insert (fun _ => rfl) h.incoming hid
        (getElem?_erase_previous (fun _ => rfl) h.incoming hpid hprevious)

theorem indexed_insertNode (h : Indexed o) (id : NodeId) (op : DeltaOp) :
    Indexed (o.insertNode id op) := ⟨h.labels, h.keyed, h.outgoing, h.incoming⟩

theorem indexed_insertProperty (h : Indexed o) (slot : PropertySlot) (delta : PropertyDelta) :
    Indexed (o.insertProperty slot delta) :=
  ⟨h.labels, h.keyed, h.outgoing, h.incoming⟩

theorem indexed_insertLabel (h : Indexed o) (row : NodeId × LabelId) (op : DeltaOp) :
    Indexed (o.insertLabel row op) := by
  refine ⟨fun j => ?_, h.keyed, h.outgoing, h.incoming⟩
  unfold insertLabel
  rw [lookup_insert, lookup_insert, h.labels j]
  by_cases hj : j = row
  · rw [if_pos hj, if_pos (by rw [hj])]
  · rw [if_neg hj, if_neg fun heq => hj (Prod.ext (Prod.ext_iff.mp heq).2 (Prod.ext_iff.mp heq).1)]

/-! ## 3. Whole layers -/

theorem applied (o : IndexedOverlay) (h : Indexed o) {l : LayerBuilder}
    (hkeyed : ∀ (id : RelationshipId) delta, l.relationships[id]? = some delta →
      delta.record.id = id) :
    Indexed (o.apply l) ∧ (o.apply l).toOverlay = o.toOverlay.apply l := by
  -- each loop keeps the access paths and puts its entries into its table
  have hnodes : ∀ (entries : List (NodeId × DeltaOp)) (o : IndexedOverlay), Indexed o →
      Indexed (entries.foldl (fun o e => o.insertNode e.1 e.2) o) ∧
        (entries.foldl (fun o e => o.insertNode e.1 e.2) o).toOverlay =
          { o.toOverlay with
            nodes := entries.foldl (fun m e => m.insert e.1 e.2) o.nodes } := by
    intro entries
    induction entries with
    | nil => exact fun o h => ⟨h, rfl⟩
    | cons e entries ih => exact fun o h => ih _ (indexed_insertNode h e.1 e.2)
  have hlabels : ∀ (entries : List ((NodeId × LabelId) × DeltaOp)) (o : IndexedOverlay),
      Indexed o → Indexed (entries.foldl (fun o e => o.insertLabel e.1 e.2) o) ∧
        (entries.foldl (fun o e => o.insertLabel e.1 e.2) o).toOverlay =
          { o.toOverlay with
            labels := entries.foldl (fun m e => m.insert e.1 e.2) o.labels } := by
    intro entries
    induction entries with
    | nil => exact fun o h => ⟨h, rfl⟩
    | cons e entries ih => exact fun o h => ih _ (indexed_insertLabel h e.1 e.2)
  have hrelationships : ∀ (entries : List (RelationshipId × RelationshipDelta))
      (o : IndexedOverlay), (∀ e ∈ entries, e.2.record.id = e.1) → Indexed o →
      Indexed (entries.foldl (fun o e => o.applyRelationshipDelta e.1 e.2) o) ∧
        (entries.foldl (fun o e => o.applyRelationshipDelta e.1 e.2) o).toOverlay =
          { o.toOverlay with
            relationships := entries.foldl (fun m e => m.insert e.1 e.2) o.relationships } := by
    intro entries
    induction entries with
    | nil => exact fun o _ h => ⟨h, rfl⟩
    | cons e entries ih =>
      intro o hids h
      obtain ⟨hindexed, hoverlay⟩ :=
        indexed_applyRelationshipDelta h (hids e (.head _))
      obtain ⟨h₁, h₂⟩ := ih _ (fun d hd => hids d (.tail _ hd)) hindexed
      refine ⟨h₁, h₂.trans ?_⟩
      have hrel := congrArg Overlay.relationships hoverlay
      simp only at hrel
      rw [List.foldl_cons, ← hrel, hoverlay]
  have hproperties : ∀ (entries : List (PropertySlot × PropertyDelta)) (o : IndexedOverlay),
      Indexed o → Indexed (entries.foldl (fun o e => o.insertProperty e.1 e.2) o) ∧
        (entries.foldl (fun o e => o.insertProperty e.1 e.2) o).toOverlay =
          { o.toOverlay with
            properties := entries.foldl (fun m e => m.insert e.1 e.2) o.properties } := by
    intro entries
    induction entries with
    | nil => exact fun o h => ⟨h, rfl⟩
    | cons e entries ih => exact fun o h => ih _ (indexed_insertProperty h e.1 e.2)
  unfold apply Overlay.apply insertEntries
  simp only [ExtTreeMap.foldl_eq_foldl_toList]
  obtain ⟨h₁, e₁⟩ := hnodes l.nodes.toList o h
  obtain ⟨h₂, e₂⟩ := hlabels l.labels.toList _ h₁
  obtain ⟨h₃, e₃⟩ := hrelationships l.relationships.toList _
    (fun e he => hkeyed e.1 e.2 (lookup_of_mem he)) h₂
  obtain ⟨h₄, e₄⟩ := hproperties l.properties.toList _ h₃
  refine ⟨h₄, ?_⟩
  rw [e₄, e₃, e₂, e₁]

/-- **Reading the rows of a layer is applying it.** -/
theorem applyRows_persisted {real : RealColumn} {l : LayerBuilder} {rows : LayerRows}
    (hbuilt : l.Built) (hrows : LayerRows.ofLayer real l = .ok rows) (o : IndexedOverlay) :
    o.applyRows rows = .ok (o.apply l.canonical) :=
  LayerRows.visit_persisted hbuilt hrows insertNode insertLabel applyRelationshipDelta
    insertProperty o

end IndexedOverlay

end Lithograph.Storage
