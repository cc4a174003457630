/-
  File:      Lithograph/Storage/Allocated.lean
  Subject:   The identifiers a layer names.

  * **`Accepted.allocated`**: an accepted layer names identifiers of the database.
-/
import Lithograph.Storage.HistoryRuns

namespace Lithograph.Storage

open Std Library

/-- **The identifiers of a layer are those of the database**: allocated, named, and each
    relationship with the tuple of its rows. -/
structure LayerBuilder.Allocated (l : LayerBuilder) (ids : Identities)
    (tuples : RelationshipTuples) : Prop where
  nodes : ∀ (id : NodeId) op, l.nodes[id]? = some op → 0 < id ∧ id < ids.nextNode
  labels : ∀ (row : NodeId × LabelId) op, l.labels[row]? = some op →
    (0 < row.1 ∧ row.1 < ids.nextNode) ∧ (ids.labels.nameOf row.2).isSome
  relationships : ∀ (id : RelationshipId) delta, l.relationships[id]? = some delta →
    (0 < delta.record.id ∧ delta.record.id < ids.nextRelationship) ∧
      (0 < delta.record.source ∧ delta.record.source < ids.nextNode) ∧
      (0 < delta.record.target ∧ delta.record.target < ids.nextNode) ∧
      (ids.relationshipTypes.nameOf delta.record.typeId).isSome ∧
      ∀ record ∈ tuples, record.id = delta.record.id → record = delta.record
  properties : ∀ (slot : PropertySlot) delta, l.properties[slot]? = some delta →
    (ids.propertyKeys.nameOf slot.2.2).isSome ∧
      match slot.1 with
      | .node => 0 < slot.2.1 ∧ slot.2.1 < ids.nextNode
      | .relationship => 0 < slot.2.1 ∧ slot.2.1 < ids.nextRelationship

variable {ids ids' : Identities} {tuples tuples' : RelationshipTuples} {l : LayerBuilder}

theorem LayerBuilder.Allocated.mono (h : l.Allocated ids tuples) (hgrow : Database.Grows ids ids')
    (hrows : ∀ (id : RelationshipId) delta, l.relationships[id]? = some delta →
      ∀ record ∈ tuples', record.id = delta.record.id → record = delta.record) :
    l.Allocated ids' tuples' := by
  have hnode : ∀ {id : Int}, 0 < id ∧ id < ids.nextNode → 0 < id ∧ id < ids'.nextNode :=
    fun hid => ⟨hid.1, Int.lt_of_lt_of_le hid.2 hgrow.nextNode⟩
  have hrelationship : ∀ {id : Int}, 0 < id ∧ id < ids.nextRelationship →
      0 < id ∧ id < ids'.nextRelationship :=
    fun hid => ⟨hid.1, Int.lt_of_lt_of_le hid.2 hgrow.nextRelationship⟩
  refine ⟨fun id op hop => hnode (h.nodes id op hop), fun row op hop => ?_,
    fun id delta hdelta => ?_, fun slot delta hdelta => ?_⟩
  · obtain ⟨hid, hname⟩ := h.labels row op hop
    exact ⟨hnode hid, hgrow.labels _ hname⟩
  · obtain ⟨hid, hsource, htarget, htype, _⟩ := h.relationships id delta hdelta
    exact ⟨hrelationship hid, hnode hsource, hnode htarget, hgrow.relationshipTypes _ htype,
      hrows id delta hdelta⟩
  · obtain ⟨hkey, howner⟩ := h.properties slot delta hdelta
    refine ⟨hgrow.propertyKeys _ hkey, ?_⟩
    obtain ⟨kind, owner, key⟩ := slot
    cases kind with
    | node => exact hnode howner
    | relationship => exact hrelationship howner

/-- **An accepted layer names identifiers of the database.** -/
theorem Accepted.allocated {g : GraphState} (h : Accepted ids tuples g l) :
    l.Allocated ids tuples where
  nodes := h.nodes
  labels row op hop := ⟨(h.labels row op hop).2.1, (h.labels row op hop).1⟩
  relationships id delta hdelta := by
    obtain ⟨htype, hid, hsource, htarget, htuple⟩ := h.relationships id delta hdelta
    exact ⟨hid, hsource, htarget, htype, htuple⟩
  properties slot delta hdelta := ⟨(h.properties slot delta hdelta).1,
    (h.properties slot delta hdelta).2.1⟩

theorem LayerBuilder.Allocated.canonical (h : l.Allocated ids tuples) :
    l.canonical.Allocated ids tuples := by
  refine ⟨h.nodes, h.labels, h.relationships, fun slot delta hdelta => ?_⟩
  have hmap : l.canonical.properties[slot]? =
      l.properties[slot]?.map PropertyDelta.canonical := ExtTreeMap.getElem?_map
  rw [hmap] at hdelta
  obtain ⟨d, hd, _⟩ := Option.map_eq_some_iff.mp hdelta
  exact h.properties slot d hd

theorem allocated_empty : LayerBuilder.Allocated {} ids tuples := by
  refine ⟨?_, ?_, ?_, ?_⟩
  · intro id op h
    simp at h
  · intro row op h
    simp at h
  · intro id delta h
    simp at h
  · intro slot delta h
    simp at h

end Lithograph.Storage
