/-
  File:      Lithograph/Storage/Scan.lean
  Subject:   Bounded, resumable scans over a checkpoint under an overlay
             (`storage/snapshot_scan.rs`).

  A scan of the relationships of one node goes through the outgoing ones and then the incoming ones,
  less the loops it has had.

  * `scanIncident_eq`: the pages of one node are its relationships, each once.
-/
import Lithograph.Storage.OverlayIndex
import Lithograph.Library.Pages

namespace Lithograph.Storage

open Std Library

/-- A snapshot with the access paths of its overlay. -/
structure IndexedSnapshot where
  checkpoint : Option GraphState := none
  overlay : IndexedOverlay := {}

def normalizedLimit (limit : Nat) : Nat := min (max limit 1) 4096

theorem normalizedLimit_pos (limit : Nat) : 0 < normalizedLimit limit := by
  unfold normalizedLimit
  omega

inductive AdjacencyKind where
  | outgoing
  | incoming
  deriving DecidableEq

/-- `AdjacencyKey`: type, neighbour, relationship. -/
abbrev AdjacencyKey := RelationshipTypeId × NodeId × RelationshipId

def adjacencyKey (kind : AdjacencyKind) (record : RelationshipRecord) : AdjacencyKey :=
  match kind with
  | .outgoing => (record.typeId, record.target, record.id)
  | .incoming => (record.typeId, record.source, record.id)

def adjacencyMatches (kind : AdjacencyKind) (node : NodeId) (type : Option RelationshipTypeId)
    (record : RelationshipRecord) : Bool :=
  (match kind with
    | .outgoing => record.source = node
    | .incoming => record.target = node) && type.all fun t => record.typeId = t

/-- The relationships of one node in one direction, by their adjacency keys. -/
def adjacencyRows (kind : AdjacencyKind) (node : NodeId) (type : Option RelationshipTypeId)
    (relationships : ExtTreeMap RelationshipId RelationshipRecord) :
    List (AdjacencyKey × RelationshipRecord) :=
  (relationships.foldl (fun rows _ record =>
    if adjacencyMatches kind node type record then rows.insert (adjacencyKey kind record) record
    else rows) (∅ : ExtTreeMap AdjacencyKey RelationshipRecord)).toList

namespace IndexedSnapshot

variable (s : IndexedSnapshot)

def snapshot : Snapshot := ⟨s.checkpoint, s.overlay.toOverlay⟩

def base : GraphState := s.checkpoint.getD {}

/-! ## 1. Nodes -/

/-- The rows `base_node_page` reads from. -/
def baseNodes (label : Option LabelId) : List (NodeId × Unit) :=
  match label with
  | some label => (s.base.labels.toList.filter fun e => e.1.2 = label).map fun e => (e.1.1, ())
  | none => s.base.nodes.toList

/-- The changes `overlay_node_page` reads from. -/
def overlayNodes (label : Option LabelId) : List (NodeId × DeltaOp) :=
  match label with
  | some label =>
    (s.overlay.labelsByLabel.toList.filter fun e => e.1.1 = label).map fun e => (e.1.2, e.2)
  | none => s.overlay.nodes.toList

def nodeDomainContains (node : NodeId) (label : Option LabelId) (page : List (NodeId × Unit)) :
    Bool :=
  match label with
  | some label =>
    match s.overlay.labelsByLabel[(label, node)]? with
    | some op => op == .add
    | none => (page.map Prod.fst).contains node
  | none =>
    match s.overlay.nodes[node]? with
    | some op => op == .add
    | none => (page.map Prod.fst).contains node

/-- `scan_node_domain_after`, and so `scan_nodes_after` and `scan_label_after`. -/
def scanNodeDomainAfter (label : Option LabelId) (limit : Nat) (after : Option NodeId) :
    Page NodeId Unit :=
  let limit := normalizedLimit limit
  let base := sourcePage limit after (s.baseNodes label)
  let overlay := sourcePage limit after (s.overlayNodes label)
  mergePage limit after (scanHorizon (sourceEnd limit base) (sourceEnd limit overlay))
    (fun node => if s.nodeDomainContains node label base then some () else none)
    (candidates base overlay)

/-! ## 2. Relationships -/

/-- The rows `checkpoint_relationship_page` reads from. -/
def baseRelationships (type : Option RelationshipTypeId) :
    List (RelationshipId × RelationshipRecord) :=
  s.base.relationships.toList.filter fun e => type.all fun t => e.2.typeId = t

def overlayRelationships (type : Option RelationshipTypeId) :
    List (RelationshipId × RelationshipDelta) :=
  s.overlay.relationships.toList.filter fun e => type.all fun t => e.2.record.typeId = t

/-- What `merge_relationship_page` hands out for one id. -/
def visibleRelationship (type : Option RelationshipTypeId)
    (page : List (RelationshipId × RelationshipRecord)) (id : RelationshipId) :
    Option RelationshipRecord :=
  match s.overlay.relationships[id]? with
  | some delta =>
    if delta.op = .add ∧ type.all (fun t => delta.record.typeId = t) then some delta.record
    else none
  | none => (page.find? fun e => e.1 == id).map Prod.snd

/-- `scan_relationships_after` and `scan_relationship_type_after`. -/
def scanRelationshipsAfter (type : Option RelationshipTypeId) (limit : Nat)
    (after : Option RelationshipId) : Page RelationshipId RelationshipRecord :=
  let limit := normalizedLimit limit
  let base := sourcePage limit after (s.baseRelationships type)
  let overlay := sourcePage limit after (s.overlayRelationships type)
  mergePage limit after (scanHorizon (sourceEnd limit base) (sourceEnd limit overlay))
    (s.visibleRelationship type base) (candidates base overlay)

/-! ## 3. Adjacency -/

/-- The changes `overlay_adjacency_keyset_page` reads from. -/
def overlayAdjacency (kind : AdjacencyKind) (node : NodeId) (type : Option RelationshipTypeId) :
    List (AdjacencyKey × RelationshipDelta) :=
  let index : ExtTreeMap AdjacencyIndexKey RelationshipDelta := match kind with
    | .outgoing => s.overlay.outgoing
    | .incoming => s.overlay.incoming
  (index.toList.filter fun e => e.1.1 = node ∧ type.all fun t => e.1.2.1 = t).map
    fun e => (e.1.2, e.2)

/-- What `merge_adjacency_page` hands out for one key: the overlay's word where its page has one. -/
def visibleAdjacency (kind : AdjacencyKind) (node : NodeId) (type : Option RelationshipTypeId)
    (base : List (AdjacencyKey × RelationshipRecord))
    (overlay : List (AdjacencyKey × RelationshipDelta)) (key : AdjacencyKey) :
    Option RelationshipRecord :=
  let record : Option RelationshipRecord := match overlay.find? (fun e => e.1 == key) with
    | some e => e.2.change
    | none => (base.find? fun e => e.1 == key).map Prod.snd
  record.filter (adjacencyMatches kind node type)

/-- `scan_directed_adjacency_page`, and so `scan_outgoing_page` and `scan_incoming_page`. -/
def scanDirectedAdjacencyPage (kind : AdjacencyKind) (node : NodeId)
    (type : Option RelationshipTypeId) (limit : Nat) (after : Option AdjacencyKey) :
    Page AdjacencyKey RelationshipRecord :=
  let limit := normalizedLimit limit
  let base := sourcePage limit after (adjacencyRows kind node type s.base.relationships)
  let overlay := sourcePage limit after (s.overlayAdjacency kind node type)
  mergePage limit after (scanHorizon (sourceEnd limit base) (sourceEnd limit overlay))
    (visibleAdjacency kind node type base overlay) (candidates base overlay)

/-- A continuation of a scan of both directions: which of them, and where in it. -/
abbrev IncidentCursor := AdjacencyKind × Option AdjacencyKey

def filterIncidentSelfLoops (node : NodeId) (phase : AdjacencyKind)
    (records : List RelationshipRecord) : List RelationshipRecord :=
  match phase with
  | .outgoing => records
  | .incoming => records.filter fun r => !(r.source == node && r.target == node)

/-- `scan_incident_page`: its records and its continuation. -/
def scanIncidentPage (node : NodeId) (type : Option RelationshipTypeId)
    (cursor : Option IncidentCursor) (limit : Nat) :
    List RelationshipRecord × Option IncidentCursor :=
  let limit := normalizedLimit limit
  let phase := (cursor.map Prod.fst).getD .outgoing
  let after := cursor.bind Prod.snd
  let first := s.scanDirectedAdjacencyPage phase node type limit after
  let items := filterIncidentSelfLoops node phase (first.items.map Prod.snd)
  match first.next with
  | some key => (items, some (phase, some key))
  | none =>
    if phase = .incoming ∨ limit ≤ items.length then (items, none)
    else
      let incoming := s.scanDirectedAdjacencyPage .incoming node type (limit - items.length) none
      (items ++ filterIncidentSelfLoops node .incoming (incoming.items.map Prod.snd),
        incoming.next.map fun key => (.incoming, some key))

/-- The pages of one node, one after the other; each of them passes a row of one of the sources. -/
def incidentPages (node : NodeId) (type : Option RelationshipTypeId) (limit : Nat) :
    Nat → Option IncidentCursor → List RelationshipRecord
  | 0, _ => []
  | fuel + 1, cursor =>
    match s.scanIncidentPage node type cursor limit with
    | (items, some cursor) => items ++ incidentPages node type limit fuel (some cursor)
    | (items, none) => items

/-- The rows a scan of one node can stop at, both directions. -/
def incidentFuel : Nat :=
  2 * (s.base.relationships.size + s.overlay.outgoing.size + s.overlay.incoming.size) + 2

/-- All the pages of `scan_incident_page`. -/
def scanIncident (node : NodeId) (type : Option RelationshipTypeId) (limit : Nat) :
    List RelationshipRecord :=
  s.incidentPages node type limit s.incidentFuel none

/-! ## 4. What a scan reads is what the snapshot shows -/

/-- What the stored layers of one database give a snapshot. -/
structure Sound : Prop where
  formed : s.snapshot.Formed
  indexed : s.overlay.Indexed
  stable : ∀ (id : RelationshipId) record delta, s.base.relationships[id]? = some record →
    s.overlay.relationships[id]? = some delta → delta.record = record

/-- The nodes a snapshot shows, those with a label where one is given. -/
def graphNodes (label : Option LabelId) : List (NodeId × Unit) :=
  match label with
  | some label =>
    (s.snapshot.graph.labels.toList.filter fun e => e.1.2 = label).map fun e => (e.1.1, ())
  | none => s.snapshot.graph.nodes.toList

/-- The relationships a snapshot shows, those of a type where one is given. -/
def graphRelationships (type : Option RelationshipTypeId) :
    List (RelationshipId × RelationshipRecord) :=
  s.snapshot.graph.relationships.toList.filter fun e => type.all fun t => e.2.typeId = t

end IndexedSnapshot

variable {α : Type} {node : NodeId} {label : Option LabelId}

theorem compare_pair {β : Type} [Ord α] [Ord β] (a c : α) (b d : β) :
    compare (a, b) (c, d) = (compare a c).then (compare b d) := rfl

theorem sorted_byNode {rows : List ((NodeId × LabelId) × α)} (label : LabelId)
    (h : rows.Pairwise KeyLt) :
    ((rows.filter fun e => e.1.2 = label).map fun e => (e.1.1, e.2)).Pairwise KeyLt := by
  rw [List.pairwise_map]
  refine (h.filter _).imp_of_mem fun {a b} ha hb hab => ?_
  have ha' : a.1.2 = label := by simpa using (List.mem_filter.mp ha).2
  have hb' : b.1.2 = label := by simpa using (List.mem_filter.mp hb).2
  have hself : compare label label = .eq := ReflCmp.compare_self
  unfold KeyLt at hab ⊢
  rw [show a.1 = (a.1.1, a.1.2) from rfl, show b.1 = (b.1.1, b.1.2) from rfl, compare_pair, ha',
    hb', hself] at hab
  cases hcmp : compare a.1.1 b.1.1 with
  | lt => rfl
  | eq =>
    rw [hcmp] at hab
    cases hab
  | gt =>
    rw [hcmp] at hab
    cases hab

theorem sorted_behind {β γ : Type} [Ord α] [TransOrd α] [DecidableEq α] [Ord β]
    {rows : List ((α × β) × γ)} (p : (α × β) × γ → Bool) (first : α)
    (hp : ∀ e, p e = true → e.1.1 = first) (h : rows.Pairwise KeyLt) :
    ((rows.filter p).map fun e => (e.1.2, e.2)).Pairwise KeyLt := by
  rw [List.pairwise_map]
  refine (h.filter _).imp_of_mem fun {a b} ha hb hab => ?_
  have ha' := hp a (List.mem_filter.mp ha).2
  have hb' := hp b (List.mem_filter.mp hb).2
  have hself : compare first first = .eq := ReflCmp.compare_self
  unfold KeyLt at hab ⊢
  rw [show a.1 = (a.1.1, a.1.2) from rfl, show b.1 = (b.1.1, b.1.2) from rfl, compare_pair, ha',
    hb', hself] at hab
  exact hab

namespace IndexedSnapshot

variable {s : IndexedSnapshot}

theorem graphNodes_sorted (label : Option LabelId) : (s.graphNodes label).Pairwise KeyLt := by
  unfold graphNodes
  cases label with
  | none => exact sorted_toList _
  | some label => exact sorted_byNode label (sorted_toList s.snapshot.graph.labels)

theorem graph_nodes (id : NodeId) : s.snapshot.graph.nodes[id]? =
    (s.overlay.nodes[id]?.map DeltaOp.change).getD s.base.nodes[id]? :=
  GraphState.nodes_apply _ _ id

theorem graph_labels (row : NodeId × LabelId) : s.snapshot.graph.labels[row]? =
    (s.overlay.labels[row]?.map DeltaOp.change).getD s.base.labels[row]? :=
  GraphState.labels_apply _ _ row

theorem graph_relationships (id : RelationshipId) : s.snapshot.graph.relationships[id]? =
    (s.overlay.relationships[id]?.map RelationshipDelta.change).getD s.base.relationships[id]? :=
  GraphState.relationships_apply _ _ id

theorem mem_byLabel {rows : List ((NodeId × LabelId) × α)} {label : LabelId} {a : α} :
    (node, a) ∈ (rows.filter fun e => e.1.2 = label).map (fun e => (e.1.1, e.2)) ↔
      ((node, label), a) ∈ rows := by
  simp only [List.mem_map, List.mem_filter, decide_eq_true_eq, Prod.mk.injEq]
  constructor
  · rintro ⟨⟨⟨n, l⟩, x⟩, ⟨hin, hl⟩, hn, hx⟩
    cases hl
    cases hn
    cases hx
    exact hin
  · intro hin
    exact ⟨((node, label), a), ⟨hin, rfl⟩, rfl, rfl⟩

/-! ## 5. The pages -/

theorem baseNodes_sorted (label : Option LabelId) : (s.baseNodes label).Pairwise KeyLt := by
  unfold baseNodes
  cases label with
  | none => exact sorted_toList _
  | some label => exact sorted_byNode label (sorted_toList s.base.labels)

theorem overlayNodes_sorted (label : Option LabelId) : (s.overlayNodes label).Pairwise KeyLt := by
  unfold overlayNodes
  cases label with
  | none => exact sorted_toList _
  | some label =>
    exact sorted_behind (fun e => decide (e.1.1 = label)) label (fun e he => by simpa using he)
      (sorted_toList s.overlay.labelsByLabel)

theorem mem_baseNodes : (node, ()) ∈ s.baseNodes label ↔
      match label with
      | some label => s.base.labels[(node, label)]? = some ()
      | none => s.base.nodes[node]? = some () := by
  unfold baseNodes
  cases label with
  | none => exact ExtTreeMap.mem_toList_iff_getElem?_eq_some
  | some label => exact mem_byLabel.trans ExtTreeMap.mem_toList_iff_getElem?_eq_some

theorem mem_graphNodes : (node, ()) ∈ s.graphNodes label ↔
      match label with
      | some label => s.snapshot.graph.labels[(node, label)]? = some ()
      | none => s.snapshot.graph.nodes[node]? = some () := by
  unfold graphNodes
  cases label with
  | none => exact ExtTreeMap.mem_toList_iff_getElem?_eq_some
  | some label => exact mem_byLabel.trans ExtTreeMap.mem_toList_iff_getElem?_eq_some

theorem mem_overlayNodes (hs : s.Sound) {op : DeltaOp} : (node, op) ∈ s.overlayNodes label ↔
      match label with
      | some label => s.overlay.labels[(node, label)]? = some op
      | none => s.overlay.nodes[node]? = some op := by
  unfold overlayNodes
  cases label with
  | none => exact ExtTreeMap.mem_toList_iff_getElem?_eq_some
  | some label =>
    simp only [List.mem_map, List.mem_filter, decide_eq_true_eq, Prod.mk.injEq]
    rw [← hs.indexed.labels (node, label), ← ExtTreeMap.mem_toList_iff_getElem?_eq_some]
    constructor
    · rintro ⟨⟨⟨l, n⟩, x⟩, ⟨hin, hl⟩, hn, hx⟩
      cases hl
      cases hn
      cases hx
      exact hin
    · intro hin
      exact ⟨((label, node), op), ⟨hin, rfl⟩, rfl, rfl⟩

/-- The word of the overlay on a node, or on its label where one is given. -/
def nodeWord (s : IndexedSnapshot) (label : Option LabelId) (node : NodeId) : Option DeltaOp :=
  match label with
  | some label => s.overlay.labels[(node, label)]?
  | none => s.overlay.nodes[node]?

theorem mem_graphNodes_iff (label : Option LabelId) (node : NodeId) :
    (node, ()) ∈ s.graphNodes label ↔
      match s.nodeWord label node with
      | some op => op = .add
      | none => (node, ()) ∈ s.baseNodes label := by
  rw [mem_graphNodes, mem_baseNodes]
  unfold nodeWord
  cases label with
  | none =>
    simp only [graph_nodes]
    cases s.overlay.nodes[node]? with
    | none => rfl
    | some op => cases op <;> simp [DeltaOp.change]
  | some label =>
    simp only [graph_labels]
    cases s.overlay.labels[(node, label)]? with
    | none => rfl
    | some op => cases op <;> simp [DeltaOp.change]

theorem nodeDomainContains_iff (hs : s.Sound) (label : Option LabelId) (node : NodeId)
    (page : List (NodeId × Unit)) : s.nodeDomainContains node label page = true ↔
      match s.nodeWord label node with
      | some op => op = .add
      | none => (node, ()) ∈ page := by
  have hpage : (page.map Prod.fst).contains node = true ↔ (node, ()) ∈ page := by
    rw [List.contains_iff_mem, List.mem_map]
    constructor
    · rintro ⟨⟨n, ⟨⟩⟩, hin, rfl⟩
      exact hin
    · intro hin
      exact ⟨(node, ()), hin, rfl⟩
  unfold nodeDomainContains nodeWord
  cases label with
  | none =>
    cases s.overlay.nodes[node]? with
    | none => exact hpage
    | some op => simp
  | some label =>
    simp only
    rw [hs.indexed.labels (node, label)]
    cases s.overlay.labels[(node, label)]? with
    | none => exact hpage
    | some op => simp

/-- **Each page of the node scans is a page of the nodes.** -/
theorem scanNodes_page (hs : s.Sound) (label : Option LabelId) (limit : Nat)
    (after : Option NodeId) :
    IsPage (s.graphNodes label) after (s.scanNodeDomainAfter label limit after) := by
  have hlimit := normalizedLimit_pos limit
  refine (mergePage_isPage hlimit (pageSource_of_sources hlimit (baseNodes_sorted label)
    (overlayNodes_sorted label) ?_ ?_)).1
  · rintro ⟨node, ⟨⟩⟩ he
    rw [mem_graphNodes_iff] at he
    cases hword : s.nodeWord label node with
    | none =>
      rw [hword] at he
      exact Or.inl ⟨(), he⟩
    | some op =>
      refine Or.inr ⟨op, (mem_overlayNodes hs).mpr ?_⟩
      unfold nodeWord at hword
      cases label <;> exact hword
  · intro node _ hbase _ v
    rw [mem_graphNodes_iff]
    have hcontains := nodeDomainContains_iff hs label node
      (sourcePage (normalizedLimit limit) after (s.baseNodes label))
    have hin : (node, ()) ∈ sourcePage (normalizedLimit limit) after (s.baseNodes label) ↔
        (node, ()) ∈ s.baseNodes label := ⟨fun h => (mem_sourcePage h).1, hbase ()⟩
    rw [hin] at hcontains
    simp only [← hcontains]
    simp

/-! ## 6. Relationships -/

theorem mem_graphRelationships {type : Option RelationshipTypeId}
    {e : RelationshipId × RelationshipRecord} : e ∈ s.graphRelationships type ↔
      s.snapshot.graph.relationships[e.1]? = some e.2 ∧
        type.all (fun t => e.2.typeId = t) = true := by
  unfold graphRelationships
  rw [List.mem_filter, ExtTreeMap.mem_toList_iff_getElem?_eq_some]

/-- **So is one of the relationship scans.** -/
theorem scanRelationships_page (type : Option RelationshipTypeId) (limit : Nat)
    (after : Option RelationshipId) :
    IsPage (s.graphRelationships type) after (s.scanRelationshipsAfter type limit after) := by
  have hlimit := normalizedLimit_pos limit
  have hbaseSorted : (s.baseRelationships type).Pairwise KeyLt := (sorted_toList _).filter _
  have hoverlaySorted : (s.overlayRelationships type).Pairwise KeyLt := (sorted_toList _).filter _
  have hbaseMem : ∀ e, e ∈ s.baseRelationships type ↔
      s.base.relationships[e.1]? = some e.2 ∧ type.all (fun t => e.2.typeId = t) = true := by
    intro e
    unfold baseRelationships
    rw [List.mem_filter, ExtTreeMap.mem_toList_iff_getElem?_eq_some]
  refine (mergePage_isPage hlimit (pageSource_of_sources hlimit hbaseSorted hoverlaySorted ?_ ?_)).1
  · rintro ⟨id, record⟩ he
    obtain ⟨hrecord, htype⟩ := mem_graphRelationships.mp he
    rw [graph_relationships] at hrecord
    cases hword : s.overlay.relationships[id]? with
    | none =>
      rw [hword] at hrecord
      exact Or.inl ⟨record, (hbaseMem _).mpr ⟨hrecord, htype⟩⟩
    | some delta =>
      rw [hword] at hrecord
      obtain ⟨_, rfl⟩ := RelationshipDelta.change_some.mp hrecord
      refine Or.inr ⟨delta, ?_⟩
      unfold overlayRelationships
      rw [List.mem_filter, ExtTreeMap.mem_toList_iff_getElem?_eq_some]
      exact ⟨hword, htype⟩
  · intro id _ hbase _ record
    rw [mem_graphRelationships, graph_relationships]
    unfold visibleRelationship
    cases hword : s.overlay.relationships[id]? with
    | some delta =>
      simp only [Option.map_some, Option.getD_some, RelationshipDelta.change]
      by_cases hop : delta.op = .add
      · rw [if_pos hop]
        by_cases htype : type.all (fun t => delta.record.typeId = t) = true
        · rw [if_pos ⟨hop, htype⟩]
          constructor
          · intro hr
            exact ⟨hr, by rw [← Option.some.inj hr]; exact htype⟩
          · intro hr
            exact hr.1
        · rw [if_neg fun h => htype h.2]
          constructor
          · intro hr
            cases hr
          · rintro ⟨hr, htype'⟩
            rw [← Option.some.inj hr] at htype'
            exact absurd htype' htype
      · rw [if_neg hop, if_neg fun h => hop h.1]
        simp
    | none =>
      have hin : (id, record) ∈ sourcePage (normalizedLimit limit) after
          (s.baseRelationships type) ↔ (id, record) ∈ s.baseRelationships type :=
        ⟨fun h => (mem_sourcePage h).1, hbase record⟩
      simp only [Option.map_none, Option.getD_none]
      rw [← hbaseMem (id, record), ← hin]
      exact find?_value (sourcePage_sorted hbaseSorted)

/-! ## 7. Adjacency -/

end IndexedSnapshot

/-- A relationship table keeps each row under its id. -/
def KeyedRelationships (relationships : ExtTreeMap RelationshipId RelationshipRecord) : Prop :=
  ∀ (id : RelationshipId) record, relationships[id]? = some record → record.id = id

variable (kind : AdjacencyKind)

theorem adjacencyKey_id (record : RelationshipRecord) :
    (adjacencyKey kind record).2.2 = record.id := by
  cases kind <;> rfl

theorem adjacencyRows_sorted (node : NodeId) (type : Option RelationshipTypeId)
    (relationships : ExtTreeMap RelationshipId RelationshipRecord) :
    (adjacencyRows kind node type relationships).Pairwise KeyLt := sorted_toList _

theorem mem_adjacencyRows {kind : AdjacencyKind} {node : NodeId} {type : Option RelationshipTypeId}
    {relationships : ExtTreeMap RelationshipId RelationshipRecord}
    (hkeyed : KeyedRelationships relationships) {key : AdjacencyKey}
    {record : RelationshipRecord} :
    (key, record) ∈ adjacencyRows kind node type relationships ↔
      relationships[record.id]? = some record ∧ adjacencyMatches kind node type record = true ∧
        adjacencyKey kind record = key := by
  have hdistinct : relationships.toList.Pairwise fun a b =>
      adjacencyKey kind a.2 ≠ adjacencyKey kind b.2 := by
    refine (toList_keys_ne relationships).imp_of_mem fun {a b} ha hb hab heq => ?_
    have hid := congrArg (fun k : AdjacencyKey => k.2.2) heq
    simp only [adjacencyKey_id] at hid
    rw [hkeyed a.1 a.2 (lookup_of_mem ha), hkeyed b.1 b.2 (lookup_of_mem hb)]
      at hid
    exact hab hid
  unfold adjacencyRows
  rw [ExtTreeMap.mem_toList_iff_getElem?_eq_some, ExtTreeMap.foldl_eq_foldl_toList,
    getElem?_foldl_insertIf (fun e => adjacencyMatches kind node type e.2)
      (fun e => adjacencyKey kind e.2) Prod.snd hdistinct]
  constructor
  · rintro (⟨e, he, hm, hk, hr⟩ | ⟨hr, _⟩)
    · have hrow := lookup_of_mem he
      have hid := hkeyed e.1 e.2 hrow
      rw [← hid, hr] at hrow
      exact ⟨hrow, hr ▸ hm, hr ▸ hk⟩
    · simp at hr
  · rintro ⟨hr, hm, hk⟩
    exact Or.inl ⟨(record.id, record), mem_of_lookup hr, hm, hk, rfl⟩

theorem adjacencyKey_type (record : RelationshipRecord) :
    (adjacencyKey kind record).1 = record.typeId := by
  cases kind <;> rfl

namespace IndexedSnapshot

variable {s : IndexedSnapshot}

theorem graph_keyed (hs : s.Sound) : KeyedRelationships s.snapshot.graph.relationships := by
  intro id record hrecord
  rw [graph_relationships] at hrecord
  cases hword : s.overlay.relationships[id]? with
  | none =>
    rw [hword] at hrecord
    exact hs.formed.base id record hrecord
  | some delta =>
    rw [hword] at hrecord
    obtain ⟨_, rfl⟩ := RelationshipDelta.change_some.mp hrecord
    exact hs.formed.relationships id delta hword

theorem base_keyed (hs : s.Sound) : KeyedRelationships s.base.relationships := hs.formed.base

theorem overlayAdjacency_sorted (kind : AdjacencyKind) (node : NodeId)
    (type : Option RelationshipTypeId) : (s.overlayAdjacency kind node type).Pairwise KeyLt := by
  unfold overlayAdjacency
  exact sorted_behind _ node (fun e he => by
    simp only [decide_eq_true_eq] at he
    exact he.1) (sorted_toList _)

theorem mem_overlayAdjacency (hs : s.Sound) {kind : AdjacencyKind}
    {type : Option RelationshipTypeId} {key : AdjacencyKey} {delta : RelationshipDelta} :
    (key, delta) ∈ s.overlayAdjacency kind node type ↔
      s.overlay.relationships[key.2.2]? = some delta ∧
        adjacencyMatches kind node type delta.record = true ∧
          adjacencyKey kind delta.record = key := by
  -- both adjacency maps, by the key of a record in them
  have hindex : ∀ (index : ExtTreeMap AdjacencyIndexKey RelationshipDelta)
      (indexKey : RelationshipRecord → AdjacencyIndexKey),
      IndexedOverlay.Mirrors s.overlay.relationships indexKey index →
      (∀ r, (indexKey r).2 = adjacencyKey kind r) →
      (∀ r, adjacencyMatches kind node type r = true ↔
        (indexKey r).1 = node ∧ type.all (fun t => r.typeId = t) = true) →
      ((key, delta) ∈ (index.toList.filter fun e =>
          decide (e.1.1 = node ∧ type.all fun t => e.1.2.1 = t)).map (fun e => (e.1.2, e.2)) ↔
        s.overlay.relationships[key.2.2]? = some delta ∧
          adjacencyMatches kind node type delta.record = true ∧
            adjacencyKey kind delta.record = key) := by
    intro index indexKey hmirror hkey hmatches
    simp only [List.mem_map, List.mem_filter, decide_eq_true_eq, Prod.mk.injEq]
    constructor
    · rintro ⟨⟨⟨n, k⟩, d⟩, ⟨hin, hn, htype⟩, hk, hd⟩
      cases hn
      cases hk
      cases hd
      obtain ⟨hdelta, hik⟩ := (hmirror _ _).mp (lookup_of_mem hin)
      have hkk : adjacencyKey kind d.record = k := by
        rw [← hkey, hik]
      refine ⟨hdelta, (hmatches _).mpr ⟨by rw [hik], ?_⟩, hkk⟩
      rw [← adjacencyKey_type kind d.record, hkk]
      exact htype
    · rintro ⟨hdelta, hm, hk⟩
      obtain ⟨hn, htype⟩ := (hmatches _).mp hm
      refine ⟨((node, key), delta), ⟨mem_of_lookup ((hmirror _ _).mpr ⟨hdelta, ?_⟩),
        rfl, ?_⟩, rfl, rfl⟩
      · exact Prod.ext hn ((hkey _).trans hk)
      · rw [← adjacencyKey_type kind delta.record, hk] at htype
        exact htype
  unfold overlayAdjacency
  cases kind with
  | outgoing =>
    refine hindex _ outgoingKey hs.indexed.outgoing (fun _ => rfl) fun r => ?_
    unfold adjacencyMatches outgoingKey
    simp
  | incoming =>
    refine hindex _ incomingKey hs.indexed.incoming (fun _ => rfl) fun r => ?_
    unfold adjacencyMatches incomingKey
    simp

theorem adjacencySource (hs : s.Sound) (kind : AdjacencyKind) (node : NodeId)
    (type : Option RelationshipTypeId) {limit : Nat} (hlimit : 0 < limit)
    (after : Option AdjacencyKey) :
    PageSource (adjacencyRows kind node type s.snapshot.graph.relationships) after
      (scanHorizon
        (sourceEnd limit (sourcePage limit after
          (adjacencyRows kind node type s.base.relationships)))
        (sourceEnd limit (sourcePage limit after (s.overlayAdjacency kind node type))))
      (visibleAdjacency kind node type
        (sourcePage limit after (adjacencyRows kind node type s.base.relationships))
        (sourcePage limit after (s.overlayAdjacency kind node type)))
      (candidates (sourcePage limit after (adjacencyRows kind node type s.base.relationships))
        (sourcePage limit after (s.overlayAdjacency kind node type))) := by
  have hbaseSorted := adjacencyRows_sorted kind node type s.base.relationships
  have hoverlaySorted := s.overlayAdjacency_sorted kind node type
  have hbaseMem := @mem_adjacencyRows kind node type _ (base_keyed hs)
  have hgraphMem := @mem_adjacencyRows kind node type _ (graph_keyed hs)
  refine pageSource_of_sources hlimit hbaseSorted hoverlaySorted ?_ ?_
  · rintro ⟨key, record⟩ he
    obtain ⟨hrecord, hm, hk⟩ := hgraphMem.mp he
    rw [graph_relationships] at hrecord
    cases hword : s.overlay.relationships[record.id]? with
    | none =>
      rw [hword] at hrecord
      exact Or.inl ⟨record, hbaseMem.mpr ⟨hrecord, hm, hk⟩⟩
    | some delta =>
      rw [hword] at hrecord
      obtain ⟨_, rfl⟩ := RelationshipDelta.change_some.mp hrecord
      refine Or.inr ⟨delta, (mem_overlayAdjacency hs).mpr ⟨?_, hm, hk⟩⟩
      rw [← hk, adjacencyKey_id]
      exact hword
  · intro key _ hbase hoverlay record
    rw [hgraphMem, graph_relationships]
    unfold visibleAdjacency
    simp only [Option.filter_eq_some_iff]
    cases hfind : (sourcePage limit after
        (s.overlayAdjacency kind node type)).find? (fun e => e.1 == key) with
    | some e =>
      obtain ⟨hin, hek⟩ := (find?_key (sourcePage_sorted hoverlaySorted)).mp hfind
      obtain ⟨hdelta, hm, hk⟩ := (mem_overlayAdjacency hs).mp (mem_sourcePage hin).1
      rw [hek] at hdelta hk
      constructor
      · rintro ⟨hchange, hmatch⟩
        obtain ⟨_, rfl⟩ := RelationshipDelta.change_some.mp hchange
        have hid : e.2.record.id = key.2.2 := by rw [← hk, adjacencyKey_id]
        refine ⟨?_, hmatch, hk⟩
        rw [hid, hdelta]
        exact hchange
      · rintro ⟨hrecord, hmatch, hrk⟩
        have hid : record.id = key.2.2 := by rw [← hrk, adjacencyKey_id]
        rw [hid, hdelta] at hrecord
        exact ⟨hrecord, hmatch⟩
    | none =>
      -- the overlay has no word on this key
      have hnone := find?_key_none.mp hfind
      have hsilent : ∀ delta, adjacencyMatches kind node type delta.record = true →
          adjacencyKey kind delta.record = key →
            s.overlay.relationships[key.2.2]? ≠ some delta := by
        intro delta hm hk hdelta
        exact hnone delta (hoverlay delta ((mem_overlayAdjacency hs).mpr ⟨hdelta, hm, hk⟩))
      have hin : ∀ record, (key, record) ∈ sourcePage limit after
          (adjacencyRows kind node type s.base.relationships) ↔
            (key, record) ∈ adjacencyRows kind node type s.base.relationships :=
        fun record => ⟨fun h => (mem_sourcePage h).1, hbase record⟩
      have hfound : ((sourcePage limit after
          (adjacencyRows kind node type s.base.relationships)).find?
            (fun e => e.1 == key)).map Prod.snd = some record ↔
          (key, record) ∈ adjacencyRows kind node type s.base.relationships := by
        rw [← hin]
        exact find?_value (sourcePage_sorted hbaseSorted)
      simp only [hfound, hbaseMem]
      constructor
      · rintro ⟨⟨hrecord, hm, hk⟩, _⟩
        have hid : record.id = key.2.2 := by rw [← hk, adjacencyKey_id]
        refine ⟨?_, hm, hk⟩
        cases hword : s.overlay.relationships[record.id]? with
        | none => exact hrecord
        | some delta =>
          have hdr := hs.stable record.id record delta hrecord hword
          rw [hid] at hword
          exact absurd hword (hsilent delta (hdr ▸ hm) (hdr ▸ hk))
      · rintro ⟨hrecord, hm, hk⟩
        have hid : record.id = key.2.2 := by rw [← hk, adjacencyKey_id]
        cases hword : s.overlay.relationships[record.id]? with
        | none =>
          rw [hword] at hrecord
          exact ⟨⟨hrecord, hm, hk⟩, hm⟩
        | some delta =>
          rw [hword] at hrecord
          obtain ⟨_, rfl⟩ := RelationshipDelta.change_some.mp hrecord
          rw [hid] at hword
          exact absurd hword (hsilent delta hm hk)

section Incident

variable (hs : s.Sound) (kind : AdjacencyKind) (node : NodeId) (type : Option RelationshipTypeId)
  (limit : Nat)

include hs

/-- **So is one of an adjacency scan.** -/
theorem scanDirectedAdjacency_page (after : Option AdjacencyKey) :
    IsPage (adjacencyRows kind node type s.snapshot.graph.relationships) after
      (s.scanDirectedAdjacencyPage kind node type limit after) :=
  (mergePage_isPage (normalizedLimit_pos limit)
    (adjacencySource hs kind node type (normalizedLimit_pos limit) after)).1

/-- The keys a page of an adjacency scan can end at. -/
def adjacencyKeys (s : IndexedSnapshot) (kind : AdjacencyKind) (node : NodeId)
    (type : Option RelationshipTypeId) : List AdjacencyKey :=
  (adjacencyRows kind node type s.base.relationships).map Prod.fst ++
    (s.overlayAdjacency kind node type).map Prod.fst

theorem scanDirectedAdjacency_next {after : Option AdjacencyKey} {k : AdjacencyKey}
    (h : (s.scanDirectedAdjacencyPage kind node type limit after).next = some k) :
    k ∈ adjacencyKeys s kind node type := by
  have hk := (mergePage_isPage (normalizedLimit_pos limit)
    (adjacencySource hs kind node type (normalizedLimit_pos limit) after)).2 k h
  unfold adjacencyKeys
  rw [List.mem_append, List.mem_map, List.mem_map]
  rcases ((candidates_spec _ _).2 k).mp hk with ⟨a, ha⟩ | ⟨b, hb⟩
  · exact Or.inl ⟨(k, a), (mem_sourcePage ha).1, rfl⟩
  · exact Or.inr ⟨(k, b), (mem_sourcePage hb).1, rfl⟩

theorem scanDirectedAdjacency_short {after : Option AdjacencyKey}
    (h : (s.scanDirectedAdjacencyPage kind node type limit after).next = none) :
    (s.scanDirectedAdjacencyPage kind node type limit after).items.length < normalizedLimit limit :=
  length_mergePage (normalizedLimit_pos limit)
    (adjacencySource hs kind node type (normalizedLimit_pos limit) after) h

/-- The records of one direction from behind a key. -/
def recordsBehind (s : IndexedSnapshot) (kind : AdjacencyKind) (node : NodeId)
    (type : Option RelationshipTypeId) (after : Option AdjacencyKey) : List RelationshipRecord :=
  ((adjacencyRows kind node type s.snapshot.graph.relationships).filter fun e =>
    Beyond after e.1).map Prod.snd

theorem recordsBehind_split (after : Option AdjacencyKey) :
    recordsBehind s kind node type after =
      (s.scanDirectedAdjacencyPage kind node type limit after).items.map Prod.snd ++
        (s.scanDirectedAdjacencyPage kind node type limit after).next.elim [] fun k =>
          recordsBehind s kind node type (some k) := by
  unfold recordsBehind
  rw [(scanDirectedAdjacency_page hs kind node type limit after).split
    (adjacencyRows_sorted kind node type _), List.map_append]
  cases (s.scanDirectedAdjacencyPage kind node type limit after).next <;> rfl

omit hs in
theorem filterIncidentSelfLoops_append (phase : AdjacencyKind)
    (records records' : List RelationshipRecord) :
    filterIncidentSelfLoops node phase (records ++ records') =
      filterIncidentSelfLoops node phase records ++
        filterIncidentSelfLoops node phase records' := by
  cases phase with
  | outgoing => rfl
  | incoming => exact List.filter_append _ _

theorem incidentPages_incoming : ∀ (fuel : Nat) (after : Option AdjacencyKey),
    (adjacencyKeys s .incoming node type).countP (fun k => decide (Beyond after k)) < fuel →
      s.incidentPages node type limit fuel (some (.incoming, after)) =
        filterIncidentSelfLoops node .incoming (recordsBehind s .incoming node type after) := by
  intro fuel
  induction fuel with
  | zero =>
    omega
  | succ fuel ih =>
    intro after hfuel
    have hpage := scanDirectedAdjacency_page hs .incoming node type (normalizedLimit limit) after
    have hsplit := recordsBehind_split hs .incoming node type (normalizedLimit limit) after
    rw [hsplit, filterIncidentSelfLoops_append]
    unfold incidentPages scanIncidentPage
    simp only [Option.map_some, Option.getD_some, Option.bind_some]
    cases hnext : (s.scanDirectedAdjacencyPage .incoming node type (normalizedLimit limit)
        after).next with
    | none =>
      simp only [true_or, if_true, Option.elim_none]
      rw [show filterIncidentSelfLoops node .incoming [] = [] from rfl, List.append_nil]
    | some k =>
      have hless := countP_beyond_lt hpage hnext
        (scanDirectedAdjacency_next hs .incoming node type (normalizedLimit limit) hnext)
      simp only [Option.elim_some]
      rw [ih (some k) (by omega)]

theorem incidentPages_outgoing : ∀ (fuel : Nat) (cursor : Option IncidentCursor),
    (cursor.map Prod.fst).getD .outgoing = .outgoing →
    (adjacencyKeys s .outgoing node type).countP
        (fun k => decide (Beyond (cursor.bind Prod.snd) k)) +
      (adjacencyKeys s .incoming node type).length + 1 < fuel →
      s.incidentPages node type limit fuel cursor =
        recordsBehind s .outgoing node type (cursor.bind Prod.snd) ++
          filterIncidentSelfLoops node .incoming (recordsBehind s .incoming node type none) := by
  intro fuel
  induction fuel with
  | zero =>
    omega
  | succ fuel ih =>
    intro cursor hphase hfuel
    have hpage := scanDirectedAdjacency_page hs .outgoing node type (normalizedLimit limit)
      (cursor.bind Prod.snd)
    have hsplit := recordsBehind_split hs .outgoing node type (normalizedLimit limit)
      (cursor.bind Prod.snd)
    rw [hsplit]
    unfold incidentPages scanIncidentPage
    simp only [hphase]
    cases hnext : (s.scanDirectedAdjacencyPage .outgoing node type (normalizedLimit limit)
        (cursor.bind Prod.snd)).next with
    | some k =>
      have hless := countP_beyond_lt hpage hnext
        (scanDirectedAdjacency_next hs .outgoing node type (normalizedLimit limit) hnext)
      simp only [Option.elim_some]
      rw [ih (some (.outgoing, some k)) rfl (by simpa using by omega), List.append_assoc]
      rfl
    | none =>
      -- the page has room for the first incoming relationships
      have hshort := scanDirectedAdjacency_short hs .outgoing node type (normalizedLimit limit)
        hnext
      have hroom : ¬ normalizedLimit limit ≤ (filterIncidentSelfLoops node .outgoing
          ((s.scanDirectedAdjacencyPage .outgoing node type (normalizedLimit limit)
            (cursor.bind Prod.snd)).items.map Prod.snd)).length := by
        unfold filterIncidentSelfLoops
        rw [List.length_map]
        unfold normalizedLimit at hshort ⊢
        omega
      simp only [reduceCtorEq, false_or, hroom, if_false, Option.elim_none, List.append_nil]
      generalize normalizedLimit limit - (filterIncidentSelfLoops node .outgoing
          ((s.scanDirectedAdjacencyPage .outgoing node type (normalizedLimit limit)
            (cursor.bind Prod.snd)).items.map Prod.snd)).length = rest
      have hsplitIn := recordsBehind_split hs .incoming node type rest none
      rw [hsplitIn, filterIncidentSelfLoops_append]
      cases hnextIn : (s.scanDirectedAdjacencyPage .incoming node type rest none).next with
      | none =>
        simp only [Option.map_none, Option.elim_none]
        rw [show filterIncidentSelfLoops node .incoming [] = [] from rfl, List.append_nil]
        rfl
      | some k =>
        have hcount := List.countP_le_length (l := adjacencyKeys s .incoming node type)
          (p := fun j => decide (Beyond (some k) j))
        simp only [Option.map_some, Option.elim_some]
        rw [incidentPages_incoming hs node type limit fuel (some k) (by omega), List.append_assoc]
        rfl

/-- **The pages of one node are its relationships**, the outgoing first, no loop twice. -/
theorem incidentPages_eq {fuel : Nat} (hfuel : s.incidentFuel ≤ fuel) :
    s.incidentPages node type limit fuel none =
      (adjacencyRows .outgoing node type s.snapshot.graph.relationships).map Prod.snd ++
        filterIncidentSelfLoops node .incoming
          ((adjacencyRows .incoming node type s.snapshot.graph.relationships).map Prod.snd) := by
  have hall : ∀ kind, recordsBehind s kind node type none =
      (adjacencyRows kind node type s.snapshot.graph.relationships).map Prod.snd := by
    intro kind
    unfold recordsBehind
    simp [Beyond]
  have hrows : ∀ kind, (adjacencyRows kind node type s.base.relationships).length ≤
      s.base.relationships.size := by
    intro kind
    have hsize := size_foldl_insertIf (fun e : RelationshipId × RelationshipRecord =>
      adjacencyMatches kind node type e.2) (fun e => adjacencyKey kind e.2) Prod.snd
      s.base.relationships.toList ∅
    unfold adjacencyRows
    rw [ExtTreeMap.length_toList, ExtTreeMap.foldl_eq_foldl_toList]
    simpa using hsize
  have houtgoing : (s.overlayAdjacency .outgoing node type).length ≤ s.overlay.outgoing.size := by
    unfold overlayAdjacency
    rw [List.length_map, ← ExtTreeMap.length_toList]
    exact List.length_filter_le _ _
  have hincoming : (s.overlayAdjacency .incoming node type).length ≤ s.overlay.incoming.size := by
    unfold overlayAdjacency
    rw [List.length_map, ← ExtTreeMap.length_toList]
    exact List.length_filter_le _ _
  have hcount := List.countP_le_length (l := adjacencyKeys s .outgoing node type)
    (p := fun k => decide (Beyond none k))
  have h := incidentPages_outgoing hs node type limit fuel none rfl (by
    have h₁ := hrows .outgoing
    have h₂ := hrows .incoming
    unfold adjacencyKeys at hcount ⊢
    unfold incidentFuel at hfuel
    simp only [List.length_append, List.length_map, Option.bind_none] at hcount ⊢
    omega)
  rw [h, Option.bind_none, hall, hall]

theorem scanIncident_eq : s.scanIncident node type limit =
    (adjacencyRows .outgoing node type s.snapshot.graph.relationships).map Prod.snd ++
      filterIncidentSelfLoops node .incoming
        ((adjacencyRows .incoming node type s.snapshot.graph.relationships).map Prod.snd) :=
  incidentPages_eq hs node type limit (Nat.le_refl _)

end Incident

end IndexedSnapshot

end Lithograph.Storage
