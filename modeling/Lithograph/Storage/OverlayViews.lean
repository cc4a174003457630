/-
  File:      Lithograph/Storage/OverlayViews.lean
  Subject:   All the views of an overlay, over any sequence of changes
             (`storage/snapshot_overlay.rs`, `storage/snapshot.rs`).

  A change is a layer, the rows of a stored layer, or a copy of the overlay. A change that fails is
  dropped by its caller together with the overlay. Left out: the accounting of memory.

  * `overlay_views`: after any changes every lookup of a view is a full scan of the table.
-/
import Lithograph.Library.KeyRange
import Lithograph.Storage.StagedIndex

namespace Lithograph.Storage

open Std Library

/-- The key of a map by one end: the node, the relationship. -/
abbrev EndKey := NodeId × RelationshipId

instance : TransOrd EndKey := inferInstance

abbrev EndIndex := ExtTreeMap EndKey RelationshipDelta

/-- `Overlay`, all its maps. -/
structure SnapshotOverlay extends IndexedOverlay where
  outgoingById : EndIndex := ∅
  incomingById : EndIndex := ∅
  incidentById : EndIndex := ∅

/-- `i64::MAX`. -/
def i64Max : Int := 2 ^ 63 - 1

theorem IsId.between {id : Int} (h : IsId id) : Between 0 i64Max id := by
  unfold IsId at h
  unfold i64Max
  rw [between_int]
  omega

/-! ## 1. Changes -/

/-- The ends under which `outgoing_by_id`, `incoming_by_id` and `incident_by_id` keep a record. -/
def outgoingEnds (record : RelationshipRecord) : List NodeId := [record.source]
def incomingEnds (record : RelationshipRecord) : List NodeId := [record.target]
def incidentEnds (record : RelationshipRecord) : List NodeId := [record.source, record.target]

/-- The entries of a record are removed, one end after the other. -/
def EndIndex.unlink (ends : List NodeId) (id : RelationshipId) (index : EndIndex) : EndIndex :=
  ends.foldl (fun index node => index.erase (node, id)) index

/-- The entries of a record are inserted, one end after the other. -/
def EndIndex.link (ends : List NodeId) (id : RelationshipId) (delta : RelationshipDelta)
    (index : EndIndex) : EndIndex :=
  ends.foldl (fun index node => index.insert (node, id) delta) index

namespace SnapshotOverlay

/-- What `apply_relationship_delta` does to one of the maps by id: the entries of the change before
    it go, those of this one come. -/
def relink (o : SnapshotOverlay) (ends : RelationshipRecord → List NodeId) (id : RelationshipId)
    (delta : RelationshipDelta) (index : EndIndex) : EndIndex :=
  let index := match o.relationships[id]? with
    | some previous => index.unlink (ends previous.record) id
    | none => index
  index.link (ends delta.record) id delta

def applyRelationshipDelta (o : SnapshotOverlay) (id : RelationshipId)
    (delta : RelationshipDelta) : SnapshotOverlay where
  toIndexedOverlay := o.toIndexedOverlay.applyRelationshipDelta id delta
  outgoingById := o.relink outgoingEnds id delta o.outgoingById
  incomingById := o.relink incomingEnds id delta o.incomingById
  incidentById := o.relink incidentEnds id delta o.incidentById

/-- `insert_node_observed`. -/
def insertNode (o : SnapshotOverlay) (id : NodeId) (op : DeltaOp) : SnapshotOverlay :=
  { o with toIndexedOverlay := o.toIndexedOverlay.insertNode id op }

/-- `insert_label_observed`. -/
def insertLabel (o : SnapshotOverlay) (row : NodeId × LabelId) (op : DeltaOp) : SnapshotOverlay :=
  { o with toIndexedOverlay := o.toIndexedOverlay.insertLabel row op }

/-- `insert_property_observed`. -/
def insertProperty (o : SnapshotOverlay) (slot : PropertySlot) (delta : PropertyDelta) :
    SnapshotOverlay :=
  { o with toIndexedOverlay := o.toIndexedOverlay.insertProperty slot delta }

/-- `Overlay::apply`, and `apply_layer_observed`. -/
def apply (o : SnapshotOverlay) (layer : LayerBuilder) : SnapshotOverlay :=
  let o := layer.nodes.foldl insertNode o
  let o := layer.labels.foldl insertLabel o
  let o := layer.relationships.foldl applyRelationshipDelta o
  layer.properties.foldl insertProperty o

/-- `clone_observed`: the tables are entered into a new overlay, which builds its own views. -/
def cloneObserved (o : SnapshotOverlay) : SnapshotOverlay :=
  ({} : SnapshotOverlay).apply o.toOverlay.layer

/-- `apply_persisted_layer_observed`. -/
def applyRows (o : SnapshotOverlay) (rows : LayerRows) : StorageResult SnapshotOverlay := do
  let o ← rows.visitNodes (fun o id op => pure (o.insertNode id op)) o
  let o ← rows.visitLabels (fun o row op => pure (o.insertLabel row op)) o
  let o ← rows.visitRelationships
    (fun o delta => pure (o.applyRelationshipDelta delta.record.id delta)) o
  rows.visitProperties (fun o slot delta => pure (o.insertProperty slot delta)) o

end SnapshotOverlay

/-- One change of an overlay as a whole. -/
inductive OverlayChange where
  | layer (l : LayerBuilder)
  | persisted (rows : LayerRows)
  | clone

/-- The overlay after a change. -/
def SnapshotOverlay.change (o : SnapshotOverlay) : OverlayChange → StorageResult SnapshotOverlay
  | .layer l => .ok (o.apply l)
  | .persisted rows => o.applyRows rows
  | .clone => .ok o.cloneObserved

/-- Rows as the tables check them: positive identifiers, a relationship under its own id. -/
structure LayerRows.Checked (rows : LayerRows) : Prop where
  nodes : ∀ (id : NodeId) op, rows.nodes[id]? = some op → IsId id
  labels : ∀ (row : NodeId × LabelId) op, rows.labels[row]? = some op → IsId row.1 ∧ IsId row.2
  relationships : ∀ (id : RelationshipId) row, rows.relationships[id]? = some row →
    row.1.id = id ∧ IsId row.1.id ∧ IsId row.1.source ∧ IsId row.1.typeId ∧ IsId row.1.target
  properties : ∀ (slot : PropertySlot) row, rows.properties[slot]? = some row →
    IsId slot.2.1 ∧ IsId slot.2.2

/-- A change as the callers make it: a layer its constructors let through, rows of the tables. -/
def OverlayChange.Entered : OverlayChange → Prop
  | .layer l => l.Entered
  | .persisted rows => rows.Checked
  | .clone => True

/-! ## 2. Lookups -/

/-- The tables hold identifiers, a relationship under its own. -/
structure Overlay.Entries (o : Overlay) : Prop where
  nodes : ∀ (id : NodeId) op, o.nodes[id]? = some op → IsId id
  labels : ∀ (row : NodeId × LabelId) op, o.labels[row]? = some op → IsId row.1 ∧ IsId row.2
  relationships : ∀ (id : RelationshipId) delta, o.relationships[id]? = some delta →
    delta.record.id = id ∧ IsId delta.record.id ∧ IsId delta.record.source ∧
      IsId delta.record.typeId ∧ IsId delta.record.target
  properties : ∀ (slot : PropertySlot) delta, o.properties[slot]? = some delta →
    IsId slot.2.1 ∧ IsId slot.2.2

/-- `outgoing.range((node, min_type, 0, 0)..=(node, max_type, i64::MAX, i64::MAX))`, and the same
    of `incoming`. -/
def IndexedOverlay.adjacency (o : IndexedOverlay) (kind : AdjacencyKind) (node : NodeId)
    (type : Option RelationshipTypeId) : List (AdjacencyIndexKey × RelationshipDelta) :=
  let index : ExtTreeMap AdjacencyIndexKey RelationshipDelta := match kind with
    | .outgoing => o.outgoing
    | .incoming => o.incoming
  keyRange index (node, type.getD 0, 0, 0) (node, type.getD i64Max, i64Max, i64Max)

variable {o o' : SnapshotOverlay}

namespace SnapshotOverlay

/-- `labels.range((node, 0)..=(node, i64::MAX))`. -/
def labelsOf (o : SnapshotOverlay) (node : NodeId) : List (LabelId × DeltaOp) :=
  (keyRange o.labels (node, 0) (node, i64Max)).map fun e => (e.1.2, e.2)

/-- `labels_by_label.range((label, 0)..=(label, i64::MAX))`. -/
def nodesOf (o : SnapshotOverlay) (label : LabelId) : List (NodeId × DeltaOp) :=
  (keyRange o.labelsByLabel (label, 0) (label, i64Max)).map fun e => (e.1.2, e.2)

/-- `properties.range((kind, owner, 0)..=(kind, owner, i64::MAX))`. -/
def propertiesOf (o : SnapshotOverlay) (kind : OwnerKind) (owner : Int) :
    List (PropertyKeyId × PropertyDelta) :=
  (keyRange o.properties (kind, owner, 0) (kind, owner, i64Max)).map fun e => (e.1.2.2, e.2)

/-! ## 3. Each view is the image of its table -/

/-- A map by one end holds each change under the ends of its record, and nothing else. -/
def MirrorsEnds (relationships : ExtTreeMap RelationshipId RelationshipDelta)
    (ends : RelationshipRecord → List NodeId) (index : EndIndex) : Prop :=
  ∀ (k : EndKey) delta, index[k]? = some delta ↔
    relationships[k.2]? = some delta ∧ k.1 ∈ ends delta.record

/-- **Each view is the image of its table.** -/
structure Viewed (o : SnapshotOverlay) : Prop where
  indexed : o.toIndexedOverlay.Indexed
  outgoingById : MirrorsEnds o.relationships outgoingEnds o.outgoingById
  incomingById : MirrorsEnds o.relationships incomingEnds o.incomingById
  incidentById : MirrorsEnds o.relationships incidentEnds o.incidentById
  entries : o.toOverlay.Entries

theorem mirrorsEnds_empty (ends : RelationshipRecord → List NodeId) : MirrorsEnds ∅ ends ∅ := by
  intro k delta
  simp

theorem viewed_empty : Viewed {} := by
  refine ⟨IndexedOverlay.indexed_empty, mirrorsEnds_empty _, mirrorsEnds_empty _,
    mirrorsEnds_empty _, ?_⟩
  constructor
  · intro id op h
    simp at h
  · intro row op h
    simp at h
  · intro id delta h
    simp at h
  · intro slot delta h
    simp at h

/-! ## 4. One write -/

theorem getElem?_relinked {id : RelationshipId} {written : Option RelationshipDelta}
    {write : EndIndex → NodeId → EndIndex} {k : EndKey}
    (hwrite : ∀ index node, (write index node)[k]? = if k = (node, id) then written else index[k]?) :
    ∀ (ends : List NodeId) (index : EndIndex), (ends.foldl write index)[k]? =
      if k.2 = id ∧ k.1 ∈ ends then written else index[k]?
  | [], index => by simp
  | node :: ends, index => by
    rw [List.foldl_cons, getElem?_relinked hwrite ends, hwrite]
    by_cases hid : k.2 = id
    · by_cases hnode : k.1 = node
      · have hk : k = (node, id) := Prod.ext hnode hid
        simp [hk]
      · have hk : k ≠ (node, id) := fun h => hnode (congrArg Prod.fst h)
        simp [hid, hnode, hk]
    · have hk : k ≠ (node, id) := fun h => hid (congrArg Prod.snd h)
      simp [hid, hk]

theorem getElem?_unlink (id : RelationshipId) (k : EndKey) (ends : List NodeId) (index : EndIndex) :
    (index.unlink ends id)[k]? = if k.2 = id ∧ k.1 ∈ ends then none else index[k]? :=
  getElem?_relinked (fun _ _ => lookup_erase ..) ends index

theorem getElem?_link (id : RelationshipId) (delta : RelationshipDelta) (k : EndKey)
    (ends : List NodeId) (index : EndIndex) :
    (index.link ends id delta)[k]? = if k.2 = id ∧ k.1 ∈ ends then some delta else index[k]? :=
  getElem?_relinked (fun _ _ => lookup_insert ..) ends index

/-- **A change of a relationship, in a map by id.** -/
theorem mirrorsEnds_relink {ends : RelationshipRecord → List NodeId} {index : EndIndex}
    (h : MirrorsEnds o.relationships ends index) (id : RelationshipId) (delta : RelationshipDelta) :
    MirrorsEnds (o.relationships.insert id delta) ends (o.relink ends id delta index) := by
  intro k d
  -- of the change before this one nothing is left
  have hrest : (match o.relationships[id]? with
      | some previous => index.unlink (ends previous.record) id
      | none => index)[k]? = if k.2 = id then none else index[k]? := by
    by_cases hid : k.2 = id
    · rw [if_pos hid]
      cases hprevious : o.relationships[id]? with
      | none =>
        cases hd : index[k]? with
        | none => rfl
        | some d =>
          have hin := ((h k d).mp hd).1
          rw [hid, hprevious] at hin
          cases hin
      | some previous =>
        rw [getElem?_unlink]
        by_cases hin : k.1 ∈ ends previous.record
        · rw [if_pos ⟨hid, hin⟩]
        · rw [if_neg fun hboth => hin hboth.2]
          cases hd : index[k]? with
          | none => rfl
          | some d =>
            obtain ⟨hrow, hend⟩ := (h k d).mp hd
            rw [hid, hprevious] at hrow
            cases hrow
            exact absurd hend hin
    · rw [if_neg hid]
      cases o.relationships[id]? with
      | none => rfl
      | some previous =>
        rw [getElem?_unlink, if_neg fun hboth => hid hboth.1]
  unfold relink
  rw [getElem?_link, lookup_insert, hrest]
  by_cases hid : k.2 = id
  · rw [if_pos hid, if_pos hid]
    by_cases hend : k.1 ∈ ends delta.record
    · rw [if_pos ⟨hid, hend⟩]
      constructor
      · intro hd
        exact ⟨hd, by rw [← Option.some.inj hd]; exact hend⟩
      · intro hd
        exact hd.1
    · rw [if_neg fun hboth => hend hboth.2]
      constructor
      · intro hd
        cases hd
      · intro hd
        rw [← Option.some.inj hd.1] at hd
        exact absurd hd.2 hend
  · rw [if_neg fun hboth => hid hboth.1, if_neg hid, if_neg hid]
    exact h k d

theorem viewed_insertNode (h : o.Viewed) {id : NodeId} (hid : IsId id) (op : DeltaOp) :
    (o.insertNode id op).Viewed := by
  refine ⟨IndexedOverlay.indexed_insertNode h.indexed id op, h.outgoingById, h.incomingById,
    h.incidentById, ?_⟩
  refine ⟨fun k op' hk => ?_, h.entries.labels, h.entries.relationships, h.entries.properties⟩
  have hlook : (o.nodes.insert id op)[k]? = some op' := hk
  rw [lookup_insert] at hlook
  split at hlook
  · rename_i heq
    exact heq ▸ hid
  · exact h.entries.nodes k op' hlook

theorem viewed_insertLabel (h : o.Viewed) {row : NodeId × LabelId}
    (hrow : IsId row.1 ∧ IsId row.2) (op : DeltaOp) : (o.insertLabel row op).Viewed := by
  refine ⟨IndexedOverlay.indexed_insertLabel h.indexed row op, h.outgoingById, h.incomingById,
    h.incidentById, ?_⟩
  refine ⟨h.entries.nodes, fun k op' hk => ?_, h.entries.relationships, h.entries.properties⟩
  have hlook : (o.labels.insert row op)[k]? = some op' := hk
  rw [lookup_insert] at hlook
  split at hlook
  · rename_i heq
    exact heq ▸ hrow
  · exact h.entries.labels k op' hlook

theorem viewed_insertProperty (h : o.Viewed) {slot : PropertySlot}
    (hslot : IsId slot.2.1 ∧ IsId slot.2.2) (delta : PropertyDelta) :
    (o.insertProperty slot delta).Viewed := by
  refine ⟨IndexedOverlay.indexed_insertProperty h.indexed slot delta, h.outgoingById,
    h.incomingById, h.incidentById, ?_⟩
  refine ⟨h.entries.nodes, h.entries.labels, h.entries.relationships, fun k delta' hk => ?_⟩
  have hlook : (o.properties.insert slot delta)[k]? = some delta' := hk
  rw [lookup_insert] at hlook
  split at hlook
  · rename_i heq
    exact heq ▸ hslot
  · exact h.entries.properties k delta' hlook

theorem viewed_applyRelationshipDelta (h : o.Viewed) {id : RelationshipId}
    {delta : RelationshipDelta} (hid : delta.record.id = id ∧ IsId delta.record.id ∧
      IsId delta.record.source ∧ IsId delta.record.typeId ∧ IsId delta.record.target) :
    (o.applyRelationshipDelta id delta).Viewed := by
  obtain ⟨hindexed, htables⟩ := IndexedOverlay.indexed_applyRelationshipDelta h.indexed hid.1
  have hrelationships : (o.applyRelationshipDelta id delta).relationships =
      o.relationships.insert id delta := congrArg Overlay.relationships htables
  refine ⟨hindexed, ?_, ?_, ?_, ?_⟩
  · rw [hrelationships]
    exact mirrorsEnds_relink h.outgoingById id delta
  · rw [hrelationships]
    exact mirrorsEnds_relink h.incomingById id delta
  · rw [hrelationships]
    exact mirrorsEnds_relink h.incidentById id delta
  · show (o.toIndexedOverlay.applyRelationshipDelta id delta).toOverlay.Entries
    rw [htables]
    refine ⟨h.entries.nodes, h.entries.labels, fun k delta' hk => ?_, h.entries.properties⟩
    have hlook : (o.relationships.insert id delta)[k]? = some delta' := hk
    rw [lookup_insert] at hlook
    split at hlook
    · rename_i heq
      rw [← Option.some.inj hlook, heq]
      exact hid
    · exact h.entries.relationships k delta' hlook

/-! ## 5. Whole changes -/

theorem viewed_foldl {α β : Type} [Ord α] [TransOrd α] [LawfulEqOrd α] {m : ExtTreeMap α β}
    {step : SnapshotOverlay → α → β → SnapshotOverlay}
    (hstep : ∀ (o : SnapshotOverlay) a b, m[a]? = some b → o.Viewed → (step o a b).Viewed)
    (h : o.Viewed) : (m.foldl step o).Viewed := by
  rw [ExtTreeMap.foldl_eq_foldl_toList]
  have hentries : ∀ e ∈ m.toList, m[e.1]? = some e.2 := fun e he => lookup_of_mem he
  generalize m.toList = entries at hentries
  induction entries generalizing o with
  | nil => exact h
  | cons e entries ih =>
    exact ih (hstep o e.1 e.2 (hentries e (.head _)) h)
      fun d hd => hentries d (.tail _ hd)

/-- **A layer keeps the views.** -/
theorem viewed_apply (h : o.Viewed) {l : LayerBuilder}
    (hnodes : ∀ (id : NodeId) op, l.nodes[id]? = some op → IsId id)
    (hlabels : ∀ (row : NodeId × LabelId) op, l.labels[row]? = some op → IsId row.1 ∧ IsId row.2)
    (hrelationships : ∀ (id : RelationshipId) delta, l.relationships[id]? = some delta →
      delta.record.id = id ∧ IsId delta.record.id ∧ IsId delta.record.source ∧
        IsId delta.record.typeId ∧ IsId delta.record.target)
    (hproperties : ∀ (slot : PropertySlot) delta, l.properties[slot]? = some delta →
      IsId slot.2.1 ∧ IsId slot.2.2) : (o.apply l).Viewed := by
  unfold apply
  refine viewed_foldl (fun o slot delta hdelta ho =>
    viewed_insertProperty ho (hproperties slot delta hdelta) delta) ?_
  refine viewed_foldl (fun o id delta hdelta ho =>
    viewed_applyRelationshipDelta ho (hrelationships id delta hdelta)) ?_
  refine viewed_foldl (fun o row op hop ho =>
    viewed_insertLabel ho (hlabels row op hop) op) ?_
  exact viewed_foldl (fun o id op hop ho => viewed_insertNode ho (hnodes id op hop) op) h

theorem viewed_cloneObserved (h : o.Viewed) : o.cloneObserved.Viewed :=
  viewed_apply viewed_empty h.entries.nodes h.entries.labels h.entries.relationships
    h.entries.properties

/-- **The rows of a stored layer keep the views.** -/
theorem viewed_applyRows (h : o.Viewed) {rows : LayerRows} (hrows : rows.Checked)
    (happly : o.applyRows rows = .ok o') : o'.Viewed := by
  unfold applyRows at happly
  obtain ⟨o₁, h₁, happly⟩ := bind_eq_ok.mp happly
  obtain ⟨o₂, h₂, happly⟩ := bind_eq_ok.mp happly
  obtain ⟨o₃, h₃, h₄⟩ := bind_eq_ok.mp happly
  have hnodes : o₁.Viewed := by
    refine list_foldlM_inv Viewed (fun o row o' hrow ho hstep => ?_) h h₁
    obtain ⟨op, _, hstep⟩ := bind_eq_ok.mp hstep
    cases hstep
    exact viewed_insertNode ho (hrows.nodes row.1 row.2 (lookup_of_mem hrow)) op
  have hlabels : o₂.Viewed := by
    refine list_foldlM_inv Viewed (fun o row o' hrow ho hstep => ?_) hnodes h₂
    obtain ⟨op, _, hstep⟩ := bind_eq_ok.mp hstep
    cases hstep
    exact viewed_insertLabel ho (hrows.labels row.1 row.2 (lookup_of_mem hrow)) op
  have hrelationships : o₃.Viewed := by
    refine list_foldlM_inv Viewed (fun o row o' hrow ho hstep => ?_) hlabels h₃
    obtain ⟨op, _, hstep⟩ := bind_eq_ok.mp hstep
    cases hstep
    have hids := hrows.relationships row.1 row.2 (lookup_of_mem hrow)
    exact viewed_applyRelationshipDelta ho ⟨rfl, hids.2⟩
  refine list_foldlM_inv Viewed (fun o row o' hrow ho hstep => ?_) hrelationships h₄
  obtain ⟨delta, _, hstep⟩ := bind_eq_ok.mp hstep
  cases hstep
  exact viewed_insertProperty ho (hrows.properties row.1 row.2 (lookup_of_mem hrow)) delta

/-- **A change keeps the views.** -/
theorem viewed_change (h : o.Viewed) {c : OverlayChange} (hc : c.Entered)
    (hchange : o.change c = .ok o') : o'.Viewed := by
  cases c with
  | layer l =>
    cases hchange
    exact viewed_apply h hc.nodes hc.labels hc.relationships fun slot delta hdelta =>
      ⟨(hc.properties slot delta hdelta).1, (hc.properties slot delta hdelta).2.1⟩
  | persisted rows => exact viewed_applyRows h hc hchange
  | clone =>
    cases hchange
    exact viewed_cloneObserved h

theorem viewed_changes {cs : List OverlayChange} (hcs : ∀ c ∈ cs, c.Entered) (h : o.Viewed)
    (hchanges : cs.foldlM change o = .ok o') : o'.Viewed :=
  list_foldlM_inv Viewed (fun _ c _ hc ho hchange => viewed_change ho (hcs c hc) hchange) h hchanges

/-! ## 6. Lookups are full scans -/

end SnapshotOverlay

theorem IndexedOverlay.mem_adjacency {o : IndexedOverlay} (h : o.Indexed)
    (hentries : o.toOverlay.Entries) {kind : AdjacencyKind} {node : NodeId}
    {type : Option RelationshipTypeId} {k : AdjacencyIndexKey} {delta : RelationshipDelta} :
    (k, delta) ∈ o.adjacency kind node type ↔
      o.relationships[delta.record.id]? = some delta ∧
        adjacencyMatches kind node type delta.record = true ∧
          k = (node, adjacencyKey kind delta.record) := by
  -- both maps, by the key of a record in them
  have hindex : ∀ (index : ExtTreeMap AdjacencyIndexKey RelationshipDelta)
      (key : RelationshipRecord → AdjacencyIndexKey),
      Mirrors o.relationships key index →
      (∀ r, (key r).2 = adjacencyKey kind r) →
      (∀ r, IsId r.source → IsId r.target → IsId (key r).2.2.1) →
      (∀ r, adjacencyMatches kind node type r = true ↔
        (key r).1 = node ∧ type.all (fun t => r.typeId = t) = true) →
      ((k, delta) ∈ keyRange index (node, type.getD 0, 0, 0)
          (node, type.getD i64Max, i64Max, i64Max) ↔
        o.relationships[delta.record.id]? = some delta ∧
          adjacencyMatches kind node type delta.record = true ∧
            k = (node, adjacencyKey kind delta.record)) := by
    intro index key hmirrors hkey hneighbour hmatch
    rw [mem_keyRange]
    simp only
    rw [hmirrors, hmatch]
    constructor
    · intro hin
      obtain ⟨⟨hrow, hk⟩, hbetween⟩ := hin
      have hid := h.keyed _ _ hrow
      rw [← hid] at hrow
      rw [← hk, show key delta.record = ((key delta.record).1, (key delta.record).2) from rfl,
        between_pair] at hbetween
      refine ⟨hrow, ⟨hbetween.1, ?_⟩, ?_⟩
      · cases type with
        | none => rfl
        | some t =>
          have htype := hbetween.2
          rw [show (key delta.record).2 =
            ((key delta.record).2.1, (key delta.record).2.2) from rfl] at htype
          simp only [Option.getD_some] at htype
          rw [between_pair, hkey, adjacencyKey_type] at htype
          simpa using htype.1
      · rw [← hk, ← hkey, ← hbetween.1]
    · intro hin
      obtain ⟨hrow, ⟨hnode, htype⟩, hk⟩ := hin
      obtain ⟨_, hid, hsource, htypeId, htarget⟩ := hentries.relationships _ _ hrow
      have hkey' : key delta.record = k := by
        rw [hk, ← hkey, ← hnode]
      refine ⟨⟨?_, hkey'⟩, ?_⟩
      · rw [hk]
        show o.relationships[(adjacencyKey kind delta.record).2.2]? = _
        rw [adjacencyKey_id]
        exact hrow
      · rw [hk, between_pair, ← hkey]
        refine ⟨rfl, ?_⟩
        have hrest : Between (0, 0) (i64Max, i64Max) (key delta.record).2.2 := by
          refine between_parts (hneighbour _ hsource htarget).between ?_
          have hlast := adjacencyKey_id kind delta.record
          rw [← hkey] at hlast
          rw [hlast]
          exact hid.between
        rw [show (key delta.record).2 = ((key delta.record).2.1, (key delta.record).2.2) from rfl]
        have hfirst : (key delta.record).2.1 = delta.record.typeId := by
          rw [hkey]
          exact adjacencyKey_type kind delta.record
        rw [hfirst]
        cases type with
        | none => exact between_parts htypeId.between hrest
        | some t =>
          have ht : delta.record.typeId = t := by simpa using htype
          simp only [Option.getD_some]
          rw [between_pair]
          exact ⟨ht, hrest⟩
  unfold adjacency
  cases kind with
  | outgoing =>
    exact hindex o.outgoing outgoingKey h.outgoing (fun _ => rfl)
      (fun _ _ htarget => htarget) fun r => by simp [adjacencyMatches, outgoingKey]
  | incoming =>
    exact hindex o.incoming incomingKey h.incoming (fun _ => rfl)
      (fun _ hsource _ => hsource) fun r => by simp [adjacencyMatches, incomingKey]

namespace SnapshotOverlay

/-- **Every lookup of a view is a full scan of its table.** -/
structure Agree (o : SnapshotOverlay) : Prop where
  membership : ∀ (node : NodeId) (label : LabelId),
    o.labelsByLabel[(label, node)]? = o.labels[(node, label)]?
  labelsOf : ∀ node, o.labelsOf node =
    (o.labels.toList.filter fun e => e.1.1 = node).map fun e => (e.1.2, e.2)
  nodesOf : ∀ label, o.nodesOf label =
    (o.labels.toList.filter fun e => e.1.2 = label).map fun e => (e.1.1, e.2)
  adjacency : ∀ kind node type,
    ((o.adjacency kind node type).map fun e => e.2).Perm ((o.relationships.toList.filter fun e =>
      adjacencyMatches kind node type e.2.record).map fun e => e.2)
  adjacencyKeys : ∀ kind node type, (o.adjacency kind node type).Pairwise KeyLt ∧
    ∀ e ∈ o.adjacency kind node type, e.1 = (node, adjacencyKey kind e.2.record)
  outgoingById : ∀ (node : NodeId) (id : RelationshipId), o.outgoingById[(node, id)]? =
    o.relationships[id]?.filter fun d => d.record.source = node
  incomingById : ∀ (node : NodeId) (id : RelationshipId), o.incomingById[(node, id)]? =
    o.relationships[id]?.filter fun d => d.record.target = node
  incidentById : ∀ (node : NodeId) (id : RelationshipId), o.incidentById[(node, id)]? =
    o.relationships[id]?.filter fun d => d.record.source = node ∨ d.record.target = node
  propertiesOf : ∀ kind owner, o.propertiesOf kind owner =
    (o.properties.toList.filter fun e => e.1.1 = kind ∧ e.1.2.1 = owner).map
      fun e => (e.1.2.2, e.2)

theorem labelsOf_eq (h : o.Viewed) (node : NodeId) : o.labelsOf node =
    (o.labels.toList.filter fun e => e.1.1 = node).map fun e => (e.1.2, e.2) := by
  unfold labelsOf
  rw [keyRange_eq_filter]
  refine congrArg (List.map _) (List.filter_congr fun e he => ?_)
  have hid := (h.entries.labels e.1 e.2 (lookup_of_mem he)).2
  rw [show e.1 = (e.1.1, e.1.2) from rfl]
  simp only [between_pair, hid.between, and_true]

theorem nodesOf_eq (h : o.Viewed) (label : LabelId) : o.nodesOf label =
    (o.labels.toList.filter fun e => e.1.2 = label).map fun e => (e.1.1, e.2) := by
  unfold nodesOf
  have hsorted : ((keyRange o.labelsByLabel (label, 0) (label, i64Max)).map fun e =>
      (e.1.2, e.2)).Pairwise KeyLt := by
    rw [keyRange_eq_filter]
    refine sorted_behind _ label (fun e he => ?_) (sorted_toList _)
    have hbetween := of_decide_eq_true he
    rw [show e.1 = (e.1.1, e.1.2) from rfl, between_pair] at hbetween
    exact hbetween.1
  refine eq_of_sorted hsorted (sorted_byNode label (sorted_toList o.labels)) fun e => ?_
  obtain ⟨node, op⟩ := e
  rw [IndexedSnapshot.mem_byLabel, ExtTreeMap.mem_toList_iff_getElem?_eq_some,
    ← h.indexed.labels (node, label),
    List.mem_map]
  constructor
  · intro hin
    obtain ⟨⟨⟨l, n⟩, op'⟩, hin, heq⟩ := hin
    obtain ⟨hlook, hbetween⟩ := mem_keyRange.mp hin
    rw [between_pair] at hbetween
    cases heq
    rw [← hbetween.1]
    exact hlook
  · intro hlook
    refine ⟨((label, node), op), mem_keyRange.mpr ⟨hlook, ?_⟩, rfl⟩
    rw [h.indexed.labels (node, label)] at hlook
    exact between_pair.mpr ⟨rfl, (h.entries.labels _ _ hlook).1.between⟩

theorem propertiesOf_eq (h : o.Viewed) (kind : OwnerKind) (owner : Int) :
    o.propertiesOf kind owner =
      (o.properties.toList.filter fun e => e.1.1 = kind ∧ e.1.2.1 = owner).map
        fun e => (e.1.2.2, e.2) := by
  unfold propertiesOf
  rw [keyRange_eq_filter]
  refine congrArg (List.map _) (List.filter_congr fun e he => ?_)
  have hid := (h.entries.properties e.1 e.2 (lookup_of_mem he)).2
  rw [show e.1 = (e.1.1, e.1.2.1, e.1.2.2) from rfl]
  simp only [between_pair, hid.between, and_true]

theorem mem_adjacency {o : SnapshotOverlay} (h : o.Viewed) {kind : AdjacencyKind} {node : NodeId}
    {type : Option RelationshipTypeId} {k : AdjacencyIndexKey} {delta : RelationshipDelta} :
    (k, delta) ∈ o.adjacency kind node type ↔
      o.relationships[delta.record.id]? = some delta ∧
        adjacencyMatches kind node type delta.record = true ∧
          k = (node, adjacencyKey kind delta.record) :=
  IndexedOverlay.mem_adjacency h.indexed h.entries

theorem adjacency_perm (h : o.Viewed) (kind : AdjacencyKind) (node : NodeId)
    (type : Option RelationshipTypeId) :
    ((o.adjacency kind node type).map fun e => e.2).Perm ((o.relationships.toList.filter fun e =>
      adjacencyMatches kind node type e.2.record).map fun e => e.2) := by
  have hleft : ((o.adjacency kind node type).map fun e => e.2).Nodup := by
    have hsorted : (o.adjacency kind node type).Pairwise KeyLt := keyRange_sorted _ _ _
    rw [List.nodup_iff_pairwise_ne, List.pairwise_map]
    refine hsorted.imp_of_mem fun {a b} ha hb hab heq => ?_
    have hka := ((mem_adjacency h).mp (show (a.1, a.2) ∈ _ from ha)).2.2
    have hkb := ((mem_adjacency h).mp (show (b.1, b.2) ∈ _ from hb)).2.2
    unfold KeyLt at hab
    rw [hka, hkb, heq] at hab
    exact compare_lt_irrefl _ hab
  have hright : ((o.relationships.toList.filter fun e =>
      adjacencyMatches kind node type e.2.record).map fun e => e.2).Nodup := by
    rw [List.nodup_iff_pairwise_ne, List.pairwise_map]
    refine ((sorted_toList o.relationships).filter _).imp_of_mem fun {a b} ha hb hab heq => ?_
    have hka := h.indexed.keyed _ _ (lookup_of_mem (List.mem_of_mem_filter ha))
    have hkb := h.indexed.keyed _ _ (lookup_of_mem (List.mem_of_mem_filter hb))
    unfold KeyLt at hab
    rw [← hka, ← hkb, heq] at hab
    exact compare_lt_irrefl _ hab
  rw [List.perm_ext_iff_of_nodup hleft hright]
  intro delta
  rw [List.mem_map, List.mem_map]
  constructor
  · intro hin
    obtain ⟨⟨k, d⟩, hin, heq⟩ := hin
    cases heq
    obtain ⟨hrow, hmatch, _⟩ := (mem_adjacency h).mp hin
    exact ⟨(d.record.id, d), List.mem_filter.mpr ⟨mem_of_lookup hrow, hmatch⟩, rfl⟩
  · intro hin
    obtain ⟨⟨id, d⟩, hin, heq⟩ := hin
    cases heq
    obtain ⟨hin, hmatch⟩ := List.mem_filter.mp hin
    have hrow := lookup_of_mem hin
    rw [← h.indexed.keyed id d hrow] at hrow
    exact ⟨((node, adjacencyKey kind d.record), d), (mem_adjacency h).mpr ⟨hrow, hmatch, rfl⟩, rfl⟩

theorem MirrorsEnds.filter {relationships : ExtTreeMap RelationshipId RelationshipDelta}
    {ends : RelationshipRecord → List NodeId} {index : EndIndex}
    (h : MirrorsEnds relationships ends index) (p : RelationshipDelta → Bool) (node : NodeId)
    (hp : ∀ d, p d = true ↔ node ∈ ends d.record) (id : RelationshipId) :
    index[(node, id)]? = relationships[id]?.filter p := by
  refine Option.ext fun d => ?_
  rw [h (node, id) d, Option.filter_eq_some_iff, hp]

theorem Viewed.agree (h : o.Viewed) : o.Agree where
  membership node label := h.indexed.labels (node, label)
  labelsOf := labelsOf_eq h
  nodesOf := nodesOf_eq h
  adjacency := adjacency_perm h
  adjacencyKeys _ _ _ :=
    ⟨keyRange_sorted _ _ _, fun e he => ((mem_adjacency h).mp (show (e.1, e.2) ∈ _ from he)).2.2⟩
  outgoingById node id :=
    h.outgoingById.filter _ node (fun d => by simp [outgoingEnds, @eq_comm Int node]) id
  incomingById node id :=
    h.incomingById.filter _ node (fun d => by simp [incomingEnds, @eq_comm Int node]) id
  incidentById node id :=
    h.incidentById.filter _ node (fun d => by simp [incidentEnds, @eq_comm Int node]) id
  propertiesOf := propertiesOf_eq h

theorem foldl_paths {α : Type} {step : SnapshotOverlay → α → SnapshotOverlay}
    (paths : IndexedOverlay → α → IndexedOverlay)
    (h : ∀ o a, (step o a).toIndexedOverlay = paths o.toIndexedOverlay a) {l : List α} :
    (l.foldl step o).toIndexedOverlay = l.foldl paths o.toIndexedOverlay := by
  induction l generalizing o with
  | nil => rfl
  | cons a l ih => rw [List.foldl_cons, List.foldl_cons, ih, h]

theorem toIndexedOverlay_apply (o : SnapshotOverlay) (l : LayerBuilder) :
    (o.apply l).toIndexedOverlay = o.toIndexedOverlay.apply l := by
  unfold apply IndexedOverlay.apply
  simp only [ExtTreeMap.foldl_eq_foldl_toList]
  rw [foldl_paths (fun o e => o.insertProperty e.1 e.2) fun _ _ => rfl,
    foldl_paths (fun o e => o.applyRelationshipDelta e.1 e.2) fun _ _ => rfl,
    foldl_paths (fun o e => o.insertLabel e.1 e.2) fun _ _ => rfl,
    foldl_paths (fun o e => o.insertNode e.1 e.2) fun _ _ => rfl]

/-- **The tables of an overlay determine its views.** -/
theorem cloneObserved_eq (h : o.Viewed) : o.cloneObserved = o := by
  have hclone := viewed_cloneObserved h
  have htables : o.cloneObserved.toOverlay = o.toOverlay := by
    have hindexed : o.cloneObserved.toIndexedOverlay =
        ({} : IndexedOverlay).apply o.toOverlay.layer := toIndexedOverlay_apply {} _
    rw [hindexed, (IndexedOverlay.applied {} IndexedOverlay.indexed_empty
      (l := o.toOverlay.layer) h.indexed.keyed).2]
    unfold Overlay.apply Overlay.layer
    simp only [insertEntries_empty]
  have hpaths := IndexedOverlay.Indexed.unique hclone.indexed h.indexed htables
  have hends : ∀ {ends : RelationshipRecord → List NodeId} {index index' : EndIndex},
      MirrorsEnds o.cloneObserved.relationships ends index →
      MirrorsEnds o.relationships ends index' → index = index' := by
    intro ends index index' hindex hindex'
    rw [htables] at hindex
    exact ExtTreeMap.ext_getElem? fun k => Option.ext fun delta =>
      (hindex k delta).trans (hindex' k delta).symm
  have houtgoing := hends hclone.outgoingById h.outgoingById
  have hincoming := hends hclone.incomingById h.incomingById
  have hincident := hends hclone.incidentById h.incidentById
  generalize o.cloneObserved = clone at hpaths houtgoing hincoming hincident
  obtain ⟨paths, outgoing, incoming, incident⟩ := clone
  cases hpaths
  cases houtgoing
  cases hincoming
  cases hincident
  rfl

/-- **After any changes of an overlay every lookup of a view is a full scan of its table**, and a
    copy has the same views. -/
theorem overlay_views {cs : List OverlayChange} (hcs : ∀ c ∈ cs, c.Entered) {o : SnapshotOverlay}
    (hchanges : cs.foldlM change {} = .ok o) : o.Agree ∧ o.cloneObserved = o := by
  have hviewed := viewed_changes hcs viewed_empty hchanges
  exact ⟨hviewed.agree, cloneObserved_eq hviewed⟩

/-- A layer with one relationship and one label. -/
def oneRelationship (record : RelationshipRecord) (op : DeltaOp) : LayerBuilder where
  labels := (∅ : ExtTreeMap (NodeId × LabelId) DeltaOp).insert (1, 1) op
  relationships :=
    (∅ : ExtTreeMap RelationshipId RelationshipDelta).insert record.id ⟨op, record⟩

theorem oneRelationship_entered {record : RelationshipRecord} (op : DeltaOp) (hid : IsId record.id)
    (hsource : IsId record.source) (htype : IsId record.typeId) (htarget : IsId record.target) :
    (oneRelationship record op).Entered := by
  constructor
  · intro id op' h
    simp [oneRelationship] at h
  · intro row op' h
    unfold oneRelationship at h
    rw [lookup_insert] at h
    split at h
    · rename_i heq
      rw [heq]
      unfold IsId
      omega
    · simp at h
  · intro id delta h
    unfold oneRelationship at h
    rw [lookup_insert] at h
    split at h
    · rename_i heq
      rw [← Option.some.inj h, heq]
      exact ⟨rfl, hid, hsource, htype, htarget⟩
    · simp at h
  · intro slot delta h
    simp [oneRelationship] at h

/-- A relationship is added, copied with the overlay, removed, and added with other ends. -/
theorem overlay_views_readded :
    let cs : List OverlayChange := [.layer (oneRelationship ⟨1, 1, 1, 2⟩ .add), .clone,
      .layer (oneRelationship ⟨1, 1, 1, 2⟩ .remove), .layer (oneRelationship ⟨1, 2, 1, 3⟩ .add)]
    ∃ o, cs.foldlM change {} = .ok o ∧ o.Agree ∧ o.cloneObserved = o := by
  intro cs
  have hone : IsId 1 := by
    unfold IsId
    omega
  have hrecord : ∀ {source target : NodeId} (op : DeltaOp), IsId source → IsId target →
      (oneRelationship ⟨1, source, 1, target⟩ op).Entered := fun op hsource htarget =>
    oneRelationship_entered op hone hsource hone htarget
  have hcs : ∀ c ∈ cs, c.Entered := by
    intro c hc
    simp only [cs, List.mem_cons, List.not_mem_nil, or_false] at hc
    rcases hc with hc | hc | hc | hc
    · rw [hc]
      exact hrecord .add (by unfold IsId; omega) (by unfold IsId; omega)
    · rw [hc]
      exact trivial
    · rw [hc]
      exact hrecord .remove (by unfold IsId; omega) (by unfold IsId; omega)
    · rw [hc]
      exact hrecord .add (by unfold IsId; omega) (by unfold IsId; omega)
  exact ⟨_, rfl, overlay_views hcs rfl⟩

end SnapshotOverlay

end Lithograph.Storage
