/-
  File:      Lithograph/Storage/StagedIndex.lean
  Subject:   The access paths of a snapshot that a statement stages its changes on
             (`storage/snapshot.rs`).

  * `Stable.applyLayer`: one more layer keeps a staged snapshot fit for scans.
-/
import Lithograph.Storage.Invariants

namespace Lithograph.Storage

open Std Library

/-! ## 1. Paths from tables -/

/-- A snapshot with the access paths of its overlay. -/
def Snapshot.indexed (s : Snapshot) : IndexedSnapshot :=
  ⟨s.checkpoint, ({} : IndexedOverlay).apply s.overlay.layer⟩

/-- **The tables of an overlay determine its access paths.** -/
theorem IndexedOverlay.Indexed.unique {o o' : IndexedOverlay} (h : o.Indexed) (h' : o'.Indexed)
    (htables : o.toOverlay = o'.toOverlay) : o = o' := by
  have hmirrors : ∀ {relationships : ExtTreeMap RelationshipId RelationshipDelta}
      {key : RelationshipRecord → AdjacencyIndexKey}
      {index index' : ExtTreeMap AdjacencyIndexKey RelationshipDelta},
      Mirrors relationships key index → Mirrors relationships key index' → index = index' := by
    intro relationships key index index' hindex hindex'
    exact ExtTreeMap.ext_getElem? fun k => Option.ext fun delta =>
      (hindex k delta).trans (hindex' k delta).symm
  have hlabels : o.labelsByLabel = o'.labelsByLabel := by
    refine ExtTreeMap.ext_getElem? fun k => ?_
    have hk := h.labels (k.2, k.1)
    rw [htables, ← h'.labels (k.2, k.1)] at hk
    exact hk
  have houtgoing : o.outgoing = o'.outgoing := by
    have hk := h.outgoing
    rw [htables] at hk
    exact hmirrors hk h'.outgoing
  have hincoming : o.incoming = o'.incoming := by
    have hk := h.incoming
    rw [htables] at hk
    exact hmirrors hk h'.incoming
  obtain ⟨tables, labels, outgoing, incoming⟩ := o
  cases htables
  cases hlabels
  cases houtgoing
  cases hincoming
  rfl

namespace Snapshot

/-- What a staged snapshot needs to be scanned: its overlay is formed, and a relationship keeps its
    tuple. -/
structure Stable (s : Snapshot) : Prop where
  formed : s.Formed
  tuples : ∀ (id : RelationshipId) record delta, s.base.relationships[id]? = some record →
    s.overlay.relationships[id]? = some delta → delta.record = record

variable {s : Snapshot} {l : LayerBuilder}

theorem indexed_tables (h : s.Formed) :
    s.indexed.overlay.Indexed ∧ s.indexed.overlay.toOverlay = s.overlay := by
  obtain ⟨hindexed, hoverlay⟩ := IndexedOverlay.applied {} IndexedOverlay.indexed_empty
    (l := s.overlay.layer) h.relationships
  refine ⟨hindexed, hoverlay.trans ?_⟩
  show Overlay.apply {} s.overlay.layer = s.overlay
  unfold Overlay.apply Overlay.layer
  simp only [insertEntries_empty]

theorem snapshot_indexed (h : s.Formed) : s.indexed.snapshot = s := by
  show (⟨s.checkpoint, s.indexed.overlay.toOverlay⟩ : Snapshot) = s
  rw [(indexed_tables h).2]

theorem Stable.sound (h : s.Stable) : s.indexed.Sound := by
  obtain ⟨hindexed, htables⟩ := indexed_tables h.formed
  refine ⟨?_, hindexed, fun id record delta hrecord hdelta => ?_⟩
  · rw [snapshot_indexed h.formed]
    exact h.formed
  · rw [htables] at hdelta
    exact h.tuples id record delta hrecord hdelta

theorem stable_of_sound {t : IndexedSnapshot} (h : t.Sound) : t.snapshot.Stable :=
  ⟨h.formed, h.stable⟩

/-- **One more layer keeps a staged snapshot fit for scans.** -/
theorem Stable.applyLayer (h : s.Stable) (hl : l.Formed)
    (htuples : ∀ (id : RelationshipId) record delta, s.base.relationships[id]? = some record →
      l.relationships[id]? = some delta → delta.record = record) : (s.applyLayer l).Stable := by
  have hsound := IndexedSnapshot.sound_applyLayer h.sound hl htuples
  have hsnapshot := IndexedSnapshot.snapshot_applyLayer h.sound hl
  rw [snapshot_indexed h.formed] at hsnapshot
  rw [← hsnapshot]
  exact stable_of_sound hsound

theorem Stable.base_record (h : s.Stable) {id : RelationshipId} {record record' : RelationshipRecord}
    (hbase : s.base.relationships[id]? = some record)
    (hgraph : s.graph.relationships[id]? = some record') : record' = record := by
  unfold graph at hgraph
  rcases GraphState.relationship_source hgraph with ⟨delta, hdelta, _, rfl⟩ | hold
  · exact h.tuples id record delta hbase hdelta
  · rw [hbase] at hold
    exact (Option.some.inj hold).symm

theorem Stable.mem_scanIncident (h : s.Stable) {node : NodeId} {limit : Nat}
    {record : RelationshipRecord} : record ∈ s.indexed.scanIncident node none limit ↔
      s.graph.relationships[record.id]? = some record ∧
        (record.source = node ∨ record.target = node) := by
  rw [IndexedSnapshot.mem_scanIncident h.sound, snapshot_indexed h.formed]

end Snapshot

end Lithograph.Storage
