/-
  File:      Lithograph/Storage/Answers.lean
  Subject:   Snapshots that answer alike (`storage/snapshot_read.rs`, `storage/snapshot_scan.rs`).

  * `sameAnswers_of_graph`: two snapshots of one graph answer every reader alike.
-/
import Lithograph.Storage.Scan

namespace Lithograph.Storage

open Std Library

namespace IndexedSnapshot

variable (s : IndexedSnapshot)

/-! ## 1. Whole scans -/

/-- The pages of `scan_node_domain_after`, one after the other. -/
def scanNodes (label : Option LabelId) (limit : Nat) : List NodeId :=
  (scanAll (s.scanNodeDomainAfter label limit)
    ((s.baseNodes label).length + (s.overlayNodes label).length + 1) none).map Prod.fst

/-- The pages of `scan_relationships_after`, one after the other. -/
def scanRelationships (type : Option RelationshipTypeId) (limit : Nat) : List RelationshipRecord :=
  (scanAll (s.scanRelationshipsAfter type limit)
    ((s.baseRelationships type).length + (s.overlayRelationships type).length + 1) none).map
      Prod.snd

/-- The pages of `scan_directed_adjacency_page`, one after the other. -/
def scanAdjacency (kind : AdjacencyKind) (node : NodeId) (type : Option RelationshipTypeId)
    (limit : Nat) : List RelationshipRecord :=
  (scanAll (s.scanDirectedAdjacencyPage kind node type limit)
    ((adjacencyRows kind node type s.base.relationships).length +
      (s.overlayAdjacency kind node type).length + 1) none).map Prod.snd

variable {s}

theorem scanAll_sources {K V α β : Type} [Ord K] [TransOrd K] [LawfulEqOrd K] [DecidableEq K]
    {entries : List (K × V)} (hsorted : entries.Pairwise KeyLt) {limit : Nat}
    {source : List (K × α)} {source' : List (K × β)} {page : Option K → Page K V}
    {horizon : Option K → Option K} {visible : Option K → K → Option V}
    (hmerge : ∀ after, page after = mergePage limit after (horizon after) (visible after)
      (candidates (sourcePage limit after source) (sourcePage limit after source')))
    (hpage : ∀ after, IsPage entries after (page after)) :
    scanAll page (source.length + source'.length + 1) none = entries := by
  have hkeys : ∀ after k, (page after).next = some k →
      k ∈ source.map Prod.fst ++ source'.map Prod.fst := by
    intro after k hk
    rw [hmerge] at hk
    rw [List.mem_append, List.mem_map, List.mem_map]
    rcases ((candidates_spec _ _).2 k).mp (mergePage_next hk) with ⟨a, ha⟩ | ⟨b, hb⟩
    · exact Or.inl ⟨(k, a), (mem_sourcePage ha).1, rfl⟩
    · exact Or.inr ⟨(k, b), (mem_sourcePage hb).1, rfl⟩
  have hcount := List.countP_le_length (l := source.map Prod.fst ++ source'.map Prod.fst)
    (p := fun k => decide (Beyond none k))
  rw [List.length_append, List.length_map, List.length_map] at hcount
  rw [scanAll_eq hsorted hpage hkeys _ none (by omega), List.filter_eq_self]
  simp [Beyond]

/-- **The pages of a node scan are the nodes of the snapshot.** -/
theorem scanNodes_eq (hs : s.Sound) (label : Option LabelId) (limit : Nat) :
    s.scanNodes label limit = (s.graphNodes label).map Prod.fst := by
  have hpages := scanNodes_page hs label limit
  exact congrArg (List.map Prod.fst)
    (scanAll_sources (graphNodes_sorted label) (fun _ => rfl) hpages)

/-- **So are those of a relationship scan.** -/
theorem scanRelationships_eq (type : Option RelationshipTypeId) (limit : Nat) :
    s.scanRelationships type limit = (s.graphRelationships type).map Prod.snd := by
  have hsorted : (s.graphRelationships type).Pairwise KeyLt := (sorted_toList _).filter _
  have hpages := scanRelationships_page (s := s) type limit
  exact congrArg (List.map Prod.snd) (scanAll_sources hsorted (fun _ => rfl) hpages)

/-- **And those of one direction of a node.** -/
theorem scanAdjacency_eq (hs : s.Sound) (kind : AdjacencyKind) (node : NodeId)
    (type : Option RelationshipTypeId) (limit : Nat) :
    s.scanAdjacency kind node type limit =
      (adjacencyRows kind node type s.snapshot.graph.relationships).map Prod.snd := by
  have hpages := scanDirectedAdjacency_page hs kind node type limit
  exact congrArg (List.map Prod.snd)
    (scanAll_sources (adjacencyRows_sorted kind node type _) (fun _ => rfl) hpages)

/-! ## 2. Snapshots of one graph -/

/-- **Two snapshots that answer every reader alike**, whatever the sizes of the pages. -/
structure SameAnswers (s t : IndexedSnapshot) : Prop where
  nodeExists : ∀ id, s.snapshot.nodeExists id = t.snapshot.nodeExists id
  labels : ∀ node, s.snapshot.labels node = t.snapshot.labels node
  relationship : ∀ id, s.snapshot.relationship id = t.snapshot.relationship id
  property : ∀ slot, s.snapshot.property slot = t.snapshot.property slot
  visitNodes : s.snapshot.visitNodes = t.snapshot.visitNodes
  visitLabels : s.snapshot.visitLabels = t.snapshot.visitLabels
  visitRelationships : s.snapshot.visitRelationships = t.snapshot.visitRelationships
  visitProperties : s.snapshot.visitProperties = t.snapshot.visitProperties
  visitNodeLabels : ∀ node, s.snapshot.visitNodeLabels node = t.snapshot.visitNodeLabels node
  visitOwnerProperties : ∀ kind owner,
    s.snapshot.visitOwnerProperties kind owner = t.snapshot.visitOwnerProperties kind owner
  scanNodes : ∀ label limit limit', s.scanNodes label limit = t.scanNodes label limit'
  scanRelationships : ∀ type limit limit',
    s.scanRelationships type limit = t.scanRelationships type limit'
  scanAdjacency : ∀ kind node type limit limit',
    s.scanAdjacency kind node type limit = t.scanAdjacency kind node type limit'
  scanIncident : ∀ node type limit limit',
    s.scanIncident node type limit = t.scanIncident node type limit'

/-- **Two snapshots of one graph answer every reader alike.** -/
theorem sameAnswers_of_graph {s t : IndexedSnapshot} (hs : s.Sound) (ht : t.Sound)
    (hgraph : s.snapshot.graph = t.snapshot.graph) : SameAnswers s t := by
  have hlabel : ∀ node label, s.snapshot.hasLabel node label = t.snapshot.hasLabel node label := by
    intro node label
    rw [Snapshot.hasLabel_eq_graph hs.formed, Snapshot.hasLabel_eq_graph ht.formed, hgraph]
  constructor
  · intro id
    rw [Snapshot.nodeExists_eq, Snapshot.nodeExists_eq, hgraph]
  · intro node
    exact Snapshot.labels_congr (hlabel node)
  · intro id
    rw [Snapshot.relationship_eq, Snapshot.relationship_eq, hgraph]
  · intro slot
    rw [Snapshot.property_eq, Snapshot.property_eq, hgraph]
  · rw [Snapshot.visitNodes_eq, Snapshot.visitNodes_eq, hgraph]
  · rw [Snapshot.visitLabels_eq, Snapshot.visitLabels_eq, hgraph]
  · rw [Snapshot.visitRelationships_eq, Snapshot.visitRelationships_eq, hgraph]
  · rw [Snapshot.visitProperties_eq hs.formed, Snapshot.visitProperties_eq ht.formed, hgraph]
  · intro node
    rw [Snapshot.visitNodeLabels_eq hs.formed, Snapshot.visitNodeLabels_eq ht.formed, hgraph]
  · intro kind owner
    rw [Snapshot.visitOwnerProperties_eq hs.formed, Snapshot.visitOwnerProperties_eq ht.formed,
      hgraph]
  · intro label limit limit'
    rw [scanNodes_eq hs, scanNodes_eq ht]
    unfold graphNodes
    rw [hgraph]
  · intro type limit limit'
    rw [scanRelationships_eq, scanRelationships_eq]
    unfold graphRelationships
    rw [hgraph]
  · intro kind node type limit limit'
    rw [scanAdjacency_eq hs, scanAdjacency_eq ht, hgraph]
  · intro node type limit limit'
    rw [scanIncident_eq hs, scanIncident_eq ht, hgraph]

end IndexedSnapshot

end Lithograph.Storage
