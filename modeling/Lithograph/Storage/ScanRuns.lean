/-
  File:      Lithograph/Storage/ScanRuns.lean
  Subject:   Whole runs of the bounded scans, from the first page to the one that names no
             continuation (`storage/snapshot_scan.rs`, `storage/snapshot.rs`).

  * `paged_scans`: with any page size the run of each scan is the unbounded list, each entry once.
-/
import Lithograph.Storage.OverlayViews

namespace Lithograph.Storage

open Std Library

/-! ## 1. Pages by identifier -/

/-- `saturating_add(1)`. -/
def saturatingNext (after : Int) : Int := min (after + 1) i64Max

/-- `range(after.saturating_add(1)..).take(limit)`. -/
def overlayPage {α : Type} (limit : Nat) (after : Int) (rows : List (Int × α)) : List (Int × α) :=
  (rows.filter fun e => saturatingNext after ≤ e.1).take limit

/-- The loop of a page by identifier, and its `next_after`. -/
def idPage {V : Type} (limit : Nat) (after : Int) (horizon : Option Int)
    (visible : Int → Option V) (keys : List Int) : Page Int V :=
  let taken := takePage limit horizon visible keys [] (some after)
  { items := taken.1
    next := if (horizon.isSome || taken.1.length == limit) && taken.2.any (after < ·) then taken.2
      else none }

namespace IndexedSnapshot

variable (s : IndexedSnapshot)

/-- `scan_nodes_after` and `scan_label_after`. -/
def nodePage (label : Option LabelId) (limit : Nat) (after : Int) : Page NodeId Unit :=
  let limit := normalizedLimit limit
  let base := sourcePage limit (some after) (s.baseNodes label)
  let overlay := overlayPage limit after (s.overlayNodes label)
  idPage limit after (scanHorizon (sourceEnd limit base) (sourceEnd limit overlay))
    (fun node => if s.nodeDomainContains node label base then some () else none)
    (candidates base overlay)

/-- `scan_relationships_after` and `scan_relationship_type_after`. -/
def relationshipPage (type : Option RelationshipTypeId) (limit : Nat) (after : Int) :
    Page RelationshipId RelationshipRecord :=
  let limit := normalizedLimit limit
  let base := sourcePage limit (some after) (s.baseRelationships type)
  let overlay := overlayPage limit after (s.overlayRelationships type)
  idPage limit after (scanHorizon (sourceEnd limit base) (sourceEnd limit overlay))
    (s.visibleRelationship type base) (candidates base overlay)

/-- `Snapshot::adjacency`, and so `outgoing` and `incoming`: the rows of the checkpoint that the
    overlay does not name, and what it adds. -/
def adjacency (kind : AdjacencyKind) (node : NodeId) (type : Option RelationshipTypeId) :
    List RelationshipRecord :=
  let records := ((adjacencyRows kind node type s.base.relationships).map Prod.snd).filter
    fun r => !s.overlay.relationships.contains r.id
  let added := (s.overlay.adjacency kind node type).filterMap fun e => e.2.change
  (records ++ added).mergeSort fun a b =>
    (compare (adjacencyKey kind a) (adjacencyKey kind b)).isLE

end IndexedSnapshot

/-! ## 2. Allocated identifiers -/

/-- An identifier a sequence has handed out: its next number is an `i64`, too. -/
def IsAllocated (id : Int) : Prop := 0 < id ∧ id < i64Max

/-- The identifiers of a snapshot come from the sequences. -/
structure Numbered (s : IndexedSnapshot) : Prop where
  entries : s.overlay.toOverlay.Entries
  baseNodes : ∀ (id : NodeId) u, s.base.nodes[id]? = some u → IsAllocated id
  baseLabels : ∀ (row : NodeId × LabelId) u, s.base.labels[row]? = some u → IsAllocated row.1
  baseRelationships : ∀ (id : RelationshipId) r, s.base.relationships[id]? = some r → IsAllocated id
  overlayNodes : ∀ (id : NodeId) op, s.overlay.nodes[id]? = some op → IsAllocated id
  overlayLabels : ∀ (row : NodeId × LabelId) op, s.overlay.labels[row]? = some op →
    IsAllocated row.1
  overlayRelationships : ∀ (id : RelationshipId) delta, s.overlay.relationships[id]? = some delta →
    IsAllocated id

variable {after : Int} {V : Type}

theorem beyond_int {k : Int} : Beyond (some after) k ↔ after < k := by
  unfold Beyond
  constructor
  · intro h
    exact Int.compare_eq_lt.mp (h after rfl)
  · intro h a ha
    cases ha
    exact Int.compare_eq_lt.mpr h

theorem overlayPage_eq {α : Type} {rows : List (Int × α)} (h : ∀ e ∈ rows, e.1 < i64Max)
    (limit : Nat) (after : Int) :
    overlayPage limit after rows = sourcePage limit (some after) rows := by
  unfold overlayPage sourcePage
  refine congrArg (List.take limit) (List.filter_congr fun e he => ?_)
  rw [decide_eq_decide, beyond_int]
  have hlt := h e he
  unfold saturatingNext
  omega

theorem idPage_eq {limit : Nat} {horizon : Option Int} {visible : Int → Option V}
    {keys : List Int} (hkeys : ∀ k ∈ keys, after < k) : idPage limit after horizon visible keys =
      mergePage limit (some after) horizon visible keys := by
  obtain ⟨passed, rest, hsplit, _, hconsumed, _, _⟩ :=
    takePage_spec limit horizon visible keys [] (some after)
  have hstop : (takePage limit horizon visible keys [] (some after)).2.any (after < ·) =
      ((takePage limit horizon visible keys [] (some after)).2 != some after) := by
    rw [hconsumed]
    cases hlast : passed.getLast? with
    | none => simp
    | some k =>
      have hk := hkeys k (by
        rw [hsplit]
        exact List.mem_append_left _ (List.mem_of_getLast? hlast))
      have hne : k ≠ after := by omega
      simp [hk, hne]
  unfold idPage mergePage
  simp only [hstop]

theorem candidates_behind {α β : Type} {limit : Nat} {base : List (Int × α)}
    {overlay : List (Int × β)} :
    ∀ k ∈ candidates (sourcePage limit (some after) base) (sourcePage limit (some after) overlay),
      after < k := by
  intro k hk
  rcases ((candidates_spec _ _).2 k).mp hk with h | h
  · obtain ⟨a, ha⟩ := h
    exact beyond_int.mp (mem_sourcePage ha).2
  · obtain ⟨b, hb⟩ := h
    exact beyond_int.mp (mem_sourcePage hb).2

theorem isPage_start {entries : List (Int × V)} (hpos : ∀ e ∈ entries, 0 < e.1)
    {after : Option Int} {p : Page Int V} (h : IsPage entries (some (after.getD 0)) p) :
    IsPage entries after p := by
  cases after with
  | some a => exact h
  | none =>
    refine ⟨h.sorted, fun e => ?_, fun k _ => ?_⟩
    · rw [h.mem e]
      constructor
      · intro he
        exact ⟨he.1, (by simp [Beyond]), he.2.2⟩
      · intro he
        exact ⟨he.1, beyond_int.mpr (hpos e he.1), he.2.2⟩
    · intro a ha
      cases ha

/-! ## 3. Runs -/

section Run

variable {K V : Type} [Ord K] [TransOrd K] [LawfulEqOrd K]

/-- **A scan lists some entries**: it ends, and its pages, one after the other, are these. -/
def Lists (page : Option K → Page K V) (entries : List (K × V)) : Prop :=
  ∃ rounds, ∀ fuel, rounds ≤ fuel → scanAll page fuel none = entries

omit [LawfulEqOrd K] in
theorem lists_of_pages {entries : List (K × V)} (hsorted : entries.Pairwise KeyLt)
    {page : Option K → Page K V} (keys : List K)
    (hpage : ∀ after, IsPage entries after (page after))
    (hkeys : ∀ after k, (page after).next = some k → k ∈ keys) : Lists page entries := by
  refine ⟨keys.length + 1, fun fuel hfuel => ?_⟩
  have hcount := List.countP_le_length (l := keys) (p := fun k => decide (Beyond none k))
  rw [scanAll_eq hsorted hpage hkeys fuel none (by omega), List.filter_eq_self]
  simp [Beyond]

end Run

namespace IndexedSnapshot

variable {s : IndexedSnapshot}

theorem overlayNodes_below (hn : Numbered s) (hs : s.Sound) (label : Option LabelId) :
    ∀ e ∈ s.overlayNodes label, e.1 < i64Max := by
  intro e he
  have hin := (mem_overlayNodes hs).mp (show (e.1, e.2) ∈ s.overlayNodes label from he)
  cases label with
  | none => exact (hn.overlayNodes e.1 e.2 hin).2
  | some label => exact (hn.overlayLabels (e.1, label) e.2 hin).2

theorem graphNodes_positive (hn : Numbered s) (label : Option LabelId) :
    ∀ e ∈ s.graphNodes label, 0 < e.1 := by
  intro e he
  have hin := mem_graphNodes.mp (show (e.1, ()) ∈ s.graphNodes label from he)
  cases label with
  | none =>
    simp only [graph_nodes] at hin
    cases hword : s.overlay.nodes[e.1]? with
    | some op => exact (hn.overlayNodes e.1 op hword).1
    | none =>
      rw [hword] at hin
      exact (hn.baseNodes e.1 () hin).1
  | some label =>
    simp only [graph_labels] at hin
    cases hword : s.overlay.labels[(e.1, label)]? with
    | some op => exact (hn.overlayLabels (e.1, label) op hword).1
    | none =>
      rw [hword] at hin
      exact (hn.baseLabels (e.1, label) () hin).1

theorem nodePage_eq (hn : Numbered s) (hs : s.Sound) (label : Option LabelId) (limit : Nat)
    (after : Int) :
    s.nodePage label limit after = s.scanNodeDomainAfter label limit (some after) := by
  unfold nodePage scanNodeDomainAfter
  simp only
  rw [overlayPage_eq (overlayNodes_below hn hs label), idPage_eq candidates_behind]

theorem nodes_listed (hn : Numbered s) (hs : s.Sound) (label : Option LabelId) (limit : Nat) :
    Lists (fun after => s.nodePage label limit (after.getD 0)) (s.graphNodes label) := by
  refine lists_of_pages (graphNodes_sorted label)
    ((s.baseNodes label).map Prod.fst ++ (s.overlayNodes label).map Prod.fst)
    (fun after => ?_) fun after k hk => ?_
  · rw [nodePage_eq hn hs]
    exact isPage_start (graphNodes_positive hn label) (scanNodes_page hs label limit _)
  · rw [nodePage_eq hn hs] at hk
    have hin := mergePage_next hk
    rw [List.mem_append, List.mem_map, List.mem_map]
    rcases ((candidates_spec _ _).2 k).mp hin with h | h
    · obtain ⟨a, ha⟩ := h
      exact Or.inl ⟨(k, a), (mem_sourcePage ha).1, rfl⟩
    · obtain ⟨b, hb⟩ := h
      exact Or.inr ⟨(k, b), (mem_sourcePage hb).1, rfl⟩

theorem graphRelationships_positive (hn : Numbered s) (type : Option RelationshipTypeId) :
    ∀ e ∈ s.graphRelationships type, 0 < e.1 := by
  intro e he
  have hin := (mem_graphRelationships.mp he).1
  rw [graph_relationships] at hin
  cases hword : s.overlay.relationships[e.1]? with
  | some delta => exact (hn.overlayRelationships e.1 delta hword).1
  | none =>
    rw [hword] at hin
    exact (hn.baseRelationships e.1 e.2 hin).1

theorem relationshipPage_eq (hn : Numbered s) (type : Option RelationshipTypeId) (limit : Nat)
    (after : Int) :
    s.relationshipPage type limit after = s.scanRelationshipsAfter type limit (some after) := by
  have hbelow : ∀ e ∈ s.overlayRelationships type, e.1 < i64Max := by
    intro e he
    unfold overlayRelationships at he
    exact (hn.overlayRelationships e.1 e.2 (lookup_of_mem (List.mem_of_mem_filter he))).2
  unfold relationshipPage scanRelationshipsAfter
  simp only
  rw [overlayPage_eq hbelow, idPage_eq candidates_behind]

theorem relationships_listed (hn : Numbered s) (type : Option RelationshipTypeId) (limit : Nat) :
    Lists (fun after => s.relationshipPage type limit (after.getD 0))
      (s.graphRelationships type) := by
  refine lists_of_pages ((sorted_toList _).filter _)
    ((s.baseRelationships type).map Prod.fst ++ (s.overlayRelationships type).map Prod.fst)
    (fun after => ?_) fun after k hk => ?_
  · rw [relationshipPage_eq hn]
    exact isPage_start (graphRelationships_positive hn type) (scanRelationships_page type limit _)
  · rw [relationshipPage_eq hn] at hk
    have hin := mergePage_next hk
    rw [List.mem_append, List.mem_map, List.mem_map]
    rcases ((candidates_spec _ _).2 k).mp hin with h | h
    · obtain ⟨a, ha⟩ := h
      exact Or.inl ⟨(k, a), (mem_sourcePage ha).1, rfl⟩
    · obtain ⟨b, hb⟩ := h
      exact Or.inr ⟨(k, b), (mem_sourcePage hb).1, rfl⟩

theorem adjacency_listed (hs : s.Sound) (kind : AdjacencyKind) (node : NodeId)
    (type : Option RelationshipTypeId) (limit : Nat) :
    Lists (s.scanDirectedAdjacencyPage kind node type limit)
      (adjacencyRows kind node type s.snapshot.graph.relationships) :=
  lists_of_pages (adjacencyRows_sorted kind node type _) (adjacencyKeys s kind node type)
    (scanDirectedAdjacency_page hs kind node type limit)
    fun _ _ hk => scanDirectedAdjacency_next hs kind node type limit hk

/-! ## 4. The unbounded readers -/

theorem mem_graphAdjacency (hs : s.Sound) {kind : AdjacencyKind} {node : NodeId}
    {type : Option RelationshipTypeId} {r : RelationshipRecord} :
    r ∈ (adjacencyRows kind node type s.snapshot.graph.relationships).map Prod.snd ↔
      s.snapshot.graph.relationships[r.id]? = some r ∧ adjacencyMatches kind node type r = true := by
  rw [List.mem_map]
  constructor
  · intro hin
    obtain ⟨⟨k, r'⟩, hin, heq⟩ := hin
    cases heq
    obtain ⟨hrow, hmatch, _⟩ := (mem_adjacencyRows (graph_keyed hs)).mp hin
    exact ⟨hrow, hmatch⟩
  · intro hin
    exact ⟨(adjacencyKey kind r, r),
      (mem_adjacencyRows (graph_keyed hs)).mpr ⟨hin.1, hin.2, rfl⟩, rfl⟩

theorem adjacencyRows_ordered {relationships : ExtTreeMap RelationshipId RelationshipRecord}
    (hkeyed : KeyedRelationships relationships) (kind : AdjacencyKind) (node : NodeId)
    (type : Option RelationshipTypeId) :
    ((adjacencyRows kind node type relationships).map Prod.snd).Pairwise fun a b =>
      compare (adjacencyKey kind a) (adjacencyKey kind b) = .lt := by
  rw [List.pairwise_map]
  refine (adjacencyRows_sorted kind node type relationships).imp_of_mem fun {a b} ha hb hab => ?_
  have hka := ((mem_adjacencyRows hkeyed).mp (show (a.1, a.2) ∈ _ from ha)).2.2
  have hkb := ((mem_adjacencyRows hkeyed).mp (show (b.1, b.2) ∈ _ from hb)).2.2
  rw [hka, hkb]
  exact hab

theorem nodup_ordered {kind : AdjacencyKind} {records : List RelationshipRecord}
    (h : records.Pairwise fun a b => compare (adjacencyKey kind a) (adjacencyKey kind b) = .lt) :
    records.Nodup := by
  refine h.imp fun hab heq => ?_
  rw [heq] at hab
  exact compare_lt_irrefl _ hab

theorem adjacency_parts (hs : s.Sound) (hn : Numbered s) (kind : AdjacencyKind) (node : NodeId)
    (type : Option RelationshipTypeId) :
    (((adjacencyRows kind node type s.base.relationships).map Prod.snd).filter
      (fun r => !s.overlay.relationships.contains r.id) ++
        (s.overlay.adjacency kind node type).filterMap fun e => e.2.change).Perm
      ((adjacencyRows kind node type s.snapshot.graph.relationships).map Prod.snd) := by
  have hbase : ∀ r, r ∈ ((adjacencyRows kind node type s.base.relationships).map Prod.snd).filter
      (fun r => !s.overlay.relationships.contains r.id) ↔
        s.base.relationships[r.id]? = some r ∧ adjacencyMatches kind node type r = true ∧
          s.overlay.relationships[r.id]? = none := by
    intro r
    rw [List.mem_filter, List.mem_map, Bool.not_eq_true', ExtTreeMap.contains_eq_isSome_getElem?,
      Option.isSome_eq_false_iff, Option.isNone_iff_eq_none]
    constructor
    · intro hin
      obtain ⟨⟨⟨k, r'⟩, hin, heq⟩, hnone⟩ := hin
      cases heq
      obtain ⟨hrow, hmatch, _⟩ := (mem_adjacencyRows (base_keyed hs)).mp hin
      exact ⟨hrow, hmatch, hnone⟩
    · intro hin
      exact ⟨⟨(adjacencyKey kind r, r),
        (mem_adjacencyRows (base_keyed hs)).mpr ⟨hin.1, hin.2.1, rfl⟩, rfl⟩, hin.2.2⟩
  have hadded : ∀ r, r ∈ (s.overlay.adjacency kind node type).filterMap
      (fun e => e.2.change) ↔ ∃ delta, s.overlay.relationships[r.id]? = some delta ∧
        delta.change = some r ∧ adjacencyMatches kind node type r = true := by
    intro r
    rw [List.mem_filterMap]
    constructor
    · intro hin
      obtain ⟨⟨k, delta⟩, hin, hchange⟩ := hin
      obtain ⟨hrow, hmatch, _⟩ := (IndexedOverlay.mem_adjacency hs.indexed hn.entries).mp hin
      obtain ⟨_, rfl⟩ := RelationshipDelta.change_some.mp hchange
      exact ⟨delta, hrow, hchange, hmatch⟩
    · intro hin
      obtain ⟨delta, hrow, hchange, hmatch⟩ := hin
      obtain ⟨_, rfl⟩ := RelationshipDelta.change_some.mp hchange
      exact ⟨((node, adjacencyKey kind delta.record), delta),
        (IndexedOverlay.mem_adjacency hs.indexed hn.entries).mpr ⟨hrow, hmatch, rfl⟩, hchange⟩
  have hnodupAdded : ((s.overlay.adjacency kind node type).filterMap
      fun e => e.2.change).Nodup := by
    rw [List.nodup_iff_pairwise_ne, List.pairwise_filterMap]
    have hsorted : (s.overlay.adjacency kind node type).Pairwise KeyLt := keyRange_sorted _ _ _
    refine hsorted.imp_of_mem fun {a b} ha hb hab r hr r' hr' heq => ?_
    have hka := (IndexedOverlay.mem_adjacency hs.indexed hn.entries).mp
      (show (a.1, a.2) ∈ _ from ha)
    have hkb := (IndexedOverlay.mem_adjacency hs.indexed hn.entries).mp
      (show (b.1, b.2) ∈ _ from hb)
    have hsame : a.2.record = b.2.record := by
      rw [(RelationshipDelta.change_some.mp hr).2, (RelationshipDelta.change_some.mp hr').2, heq]
    unfold KeyLt at hab
    rw [hka.2.2, hkb.2.2, hsame] at hab
    exact compare_lt_irrefl _ hab
  have hnodup := List.nodup_append.mpr
    ⟨(nodup_ordered (adjacencyRows_ordered (base_keyed hs) kind node type)).filter
      (fun r => !s.overlay.relationships.contains r.id), hnodupAdded,
      fun a ha b hb heq => by
        obtain ⟨delta, hrow, _⟩ := (hadded b).mp hb
        have hnone := ((hbase a).mp ha).2.2
        rw [heq, hrow] at hnone
        cases hnone⟩
  rw [List.perm_ext_iff_of_nodup hnodup
    (nodup_ordered (adjacencyRows_ordered (graph_keyed hs) kind node type))]
  intro r
  rw [List.mem_append, hbase, hadded, mem_graphAdjacency hs, graph_relationships]
  cases hword : s.overlay.relationships[r.id]? with
  | none => simp
  | some delta =>
    constructor
    · intro hin
      rcases hin with ⟨_, _, hnone⟩ | ⟨delta', heq, hchange, hmatch⟩
      · cases hnone
      · rw [heq]
        exact ⟨hchange, hmatch⟩
    · intro hin
      exact Or.inr ⟨delta, rfl, hin.1, hin.2⟩

/-- **The unbounded reader of one direction** hands out what the snapshot shows of it, by key. -/
theorem adjacency_eq (hs : s.Sound) (hn : Numbered s) (kind : AdjacencyKind) (node : NodeId)
    (type : Option RelationshipTypeId) : s.adjacency kind node type =
      (adjacencyRows kind node type s.snapshot.graph.relationships).map Prod.snd := by
  have hperm := adjacency_parts hs hn kind node type
  have hordered : ((adjacencyRows kind node type s.snapshot.graph.relationships).map
      Prod.snd).Pairwise fun a b =>
        (compare (adjacencyKey kind a) (adjacencyKey kind b)).isLE = true := by
    refine (adjacencyRows_ordered (graph_keyed hs) kind node type).imp fun hab => ?_
    rw [hab]
    rfl
  have hsorted : (s.adjacency kind node type).Pairwise fun a b =>
      (compare (adjacencyKey kind a) (adjacencyKey kind b)).isLE = true := by
    unfold adjacency
    refine List.pairwise_mergeSort (fun a b c hab hbc => ?_) (fun a b => ?_) _
    · exact TransOrd.isLE_trans hab hbc
    · rw [OrientedOrd.eq_swap (a := adjacencyKey kind b) (b := adjacencyKey kind a)]
      cases compare (adjacencyKey kind a) (adjacencyKey kind b) <;> rfl
  have hsame : (s.adjacency kind node type).Perm
      ((adjacencyRows kind node type s.snapshot.graph.relationships).map Prod.snd) := by
    unfold adjacency
    exact (List.mergeSort_perm _ _).trans hperm
  refine List.Perm.eq_of_pairwise (fun a b ha hb hab hba => ?_) hsorted hordered hsame
  -- two records of the snapshot with one key are one
  have hkey : adjacencyKey kind a = adjacencyKey kind b := by
    cases hcmp : compare (adjacencyKey kind a) (adjacencyKey kind b) with
    | lt =>
      rw [OrientedOrd.eq_swap (a := adjacencyKey kind b) (b := adjacencyKey kind a), hcmp] at hba
      cases hba
    | eq => exact LawfulEqOrd.eq_of_compare hcmp
    | gt =>
      rw [hcmp] at hab
      cases hab
  have hid := congrArg (fun k : AdjacencyKey => k.2.2) hkey
  simp only [adjacencyKey_id] at hid
  have hina := ((mem_graphAdjacency hs).mp (hsame.mem_iff.mp ha)).1
  have hinb := ((mem_graphAdjacency hs).mp hb).1
  rw [hid, hinb] at hina
  exact (Option.some.inj hina).symm

theorem graphNodes_ids (label : Option LabelId) : (s.graphNodes label).map Prod.fst =
    match label with
    | none => s.snapshot.visitNodes
    | some label => (s.snapshot.visitLabels.filter fun row => row.2 = label).map Prod.fst := by
  unfold graphNodes
  cases label with
  | none => rw [Snapshot.visitNodes_eq]
  | some label =>
    simp only
    rw [Snapshot.visitLabels_eq, List.filter_map, List.map_map, List.map_map]
    rfl

theorem graphRelationships_records (type : Option RelationshipTypeId) :
    (s.graphRelationships type).map Prod.snd =
      s.snapshot.visitRelationships.filter fun r => type.all fun t => r.typeId = t := by
  unfold graphRelationships
  rw [Snapshot.visitRelationships_eq, List.filter_map]
  rfl

theorem ascending_ids {entries : List (Int × V)} (h : entries.Pairwise KeyLt) :
    (entries.map Prod.fst).Pairwise (· < ·) := by
  rw [List.pairwise_map]
  exact h.imp fun hab => Int.compare_eq_lt.mp hab

theorem nodup_incident (hs : s.Sound) (node : NodeId) (type : Option RelationshipTypeId) :
    ((adjacencyRows .outgoing node type s.snapshot.graph.relationships).map Prod.snd ++
      filterIncidentSelfLoops node .incoming
        ((adjacencyRows .incoming node type s.snapshot.graph.relationships).map Prod.snd)).Nodup := by
  have hnodup : ∀ kind,
      ((adjacencyRows kind node type s.snapshot.graph.relationships).map Prod.snd).Nodup :=
    fun kind => nodup_ordered (adjacencyRows_ordered (graph_keyed hs) kind node type)
  refine List.nodup_append.mpr ⟨hnodup .outgoing, (hnodup .incoming).filter _, ?_⟩
  intro a ha b hb heq
  have hout := ((mem_graphAdjacency hs).mp ha).2
  unfold filterIncidentSelfLoops at hb
  obtain ⟨hin, hloop⟩ := List.mem_filter.mp hb
  have hinto := ((mem_graphAdjacency hs).mp hin).2
  rw [heq] at hout
  unfold adjacencyMatches at hout hinto
  simp only [Bool.and_eq_true, decide_eq_true_eq] at hout hinto
  simp [hout.1, hinto.1] at hloop

/-- **With any page size the run of each scan, up to the page that names no continuation, is the
    unbounded list, each entry once**: nodes, labels and relationships by ascending id, one endpoint
    by ascending type, neighbour and id, both endpoints the outgoing before the incoming. -/
theorem paged_scans (hs : s.Sound) (hn : Numbered s) (limit : Nat) :
    (∀ label : Option LabelId,
      Lists (fun after => s.nodePage label limit (after.getD 0)) (s.graphNodes label) ∧
      ((s.graphNodes label).map Prod.fst).Pairwise (· < ·) ∧
      (s.graphNodes label).map Prod.fst = match label with
        | none => s.snapshot.visitNodes
        | some label => (s.snapshot.visitLabels.filter fun row => row.2 = label).map Prod.fst) ∧
    (∀ type : Option RelationshipTypeId,
      Lists (fun after => s.relationshipPage type limit (after.getD 0))
        (s.graphRelationships type) ∧
      ((s.graphRelationships type).map Prod.fst).Pairwise (· < ·) ∧
      (s.graphRelationships type).map Prod.snd =
        s.snapshot.visitRelationships.filter fun r => type.all fun t => r.typeId = t) ∧
    (∀ (kind : AdjacencyKind) (node : NodeId) (type : Option RelationshipTypeId),
      ∃ entries, Lists (s.scanDirectedAdjacencyPage kind node type limit) entries ∧
        entries.Pairwise KeyLt ∧ entries.map Prod.snd = s.adjacency kind node type) ∧
    ∀ (node : NodeId) (type : Option RelationshipTypeId),
      (∃ rounds, ∀ fuel, rounds ≤ fuel → s.incidentPages node type limit fuel none =
        s.adjacency .outgoing node type ++
          filterIncidentSelfLoops node .incoming (s.adjacency .incoming node type)) ∧
      (s.adjacency .outgoing node type ++
        filterIncidentSelfLoops node .incoming (s.adjacency .incoming node type)).Nodup := by
  refine ⟨fun label => ?_, fun type => ?_, fun kind node type => ?_, fun node type => ?_⟩
  · exact ⟨nodes_listed hn hs label limit, ascending_ids (graphNodes_sorted label),
      graphNodes_ids label⟩
  · exact ⟨relationships_listed hn type limit, ascending_ids ((sorted_toList _).filter _),
      graphRelationships_records type⟩
  · exact ⟨_, adjacency_listed hs kind node type limit, adjacencyRows_sorted kind node type _,
      (adjacency_eq hs hn kind node type).symm⟩
  · rw [adjacency_eq hs hn, adjacency_eq hs hn]
    exact ⟨⟨s.incidentFuel, fun fuel hfuel => incidentPages_eq hs node type limit hfuel⟩,
      nodup_incident hs node type⟩

/-- A checkpoint with the nodes 1 and 2, and an overlay that removes the first. -/
def firstRemoved : IndexedSnapshot where
  checkpoint := some { nodes := ((∅ : ExtTreeMap NodeId Unit).insert 1 ()).insert 2 () }
  overlay := ({} : IndexedOverlay).insertNode 1 .remove

theorem firstRemoved_sound : firstRemoved.Sound := by
  refine ⟨?_, IndexedOverlay.indexed_insertNode IndexedOverlay.indexed_empty 1 .remove, ?_⟩
  · constructor
    · intro row op h
      simp [firstRemoved, snapshot, IndexedOverlay.insertNode] at h
    · intro id delta h
      simp [firstRemoved, snapshot, IndexedOverlay.insertNode] at h
    · intro slot delta h
      simp [firstRemoved, snapshot, IndexedOverlay.insertNode] at h
    · intro slot delta h
      simp [firstRemoved, snapshot, IndexedOverlay.insertNode] at h
    · intro id r h
      simp [firstRemoved, snapshot, Snapshot.base] at h
  · intro id record delta h
    simp [firstRemoved, base] at h

theorem firstRemoved_numbered : Numbered firstRemoved := by
  have hnode : ∀ {id : NodeId} {op}, firstRemoved.overlay.nodes[id]? = some op → id = 1 := by
    intro id op h
    have hlook : ((∅ : ExtTreeMap NodeId DeltaOp).insert 1 .remove)[id]? = some op := h
    rw [lookup_insert] at hlook
    split at hlook
    · rename_i heq
      exact heq
    · simp at hlook
  constructor
  · constructor
    · intro id op h
      rw [hnode h]
      unfold IsId
      omega
    · intro row op h
      simp [firstRemoved, IndexedOverlay.insertNode] at h
    · intro id delta h
      simp [firstRemoved, IndexedOverlay.insertNode] at h
    · intro slot delta h
      simp [firstRemoved, IndexedOverlay.insertNode] at h
  · intro id u h
    have hlook : (((∅ : ExtTreeMap NodeId Unit).insert 1 ()).insert 2 ())[id]? = some u := h
    rw [lookup_insert, lookup_insert] at hlook
    unfold IsAllocated i64Max
    split at hlook
    · rename_i heq
      rw [heq]
      omega
    · split at hlook
      · rename_i heq
        rw [heq]
        omega
      · simp at hlook
  · intro row u h
    simp [firstRemoved, base] at h
  · intro id r h
    simp [firstRemoved, base] at h
  · intro id op h
    rw [hnode h]
    unfold IsAllocated i64Max
    omega
  · intro row op h
    simp [firstRemoved, IndexedOverlay.insertNode] at h
  · intro id delta h
    simp [firstRemoved, IndexedOverlay.insertNode] at h

/-- One node a page, the first of them removed. -/
theorem paged_scans_removed :
    Lists (fun after => firstRemoved.nodePage none 1 (after.getD 0))
      (firstRemoved.graphNodes none) :=
  ((paged_scans firstRemoved_sound firstRemoved_numbered 1).1 none).1

/-- The pages of a scan up to the first that is empty. -/
def untilEmpty {K V : Type} (page : Option K → Page K V) : Nat → Option K → List (K × V)
  | 0, _ => []
  | fuel + 1, after =>
    match (page after).items, (page after).next with
    | [], _ => []
    | items, some k => items ++ untilEmpty page fuel (some k)
    | items, none => items

/-- Two relationships of node 1, of which the later has the smaller type. -/
def typesReversed : IndexedSnapshot where
  checkpoint := some { relationships := ((∅ : ExtTreeMap RelationshipId RelationshipRecord).insert
    1 ⟨1, 1, 2, 2⟩).insert 2 ⟨2, 1, 1, 2⟩ }

/-- **A page of removed ids is empty and goes on**: a run that stops at the first empty page misses
    node 2. And the pages of one endpoint do not ascend by id. -/
theorem empty_page_goes_on :
    ((firstRemoved.nodePage none 1 0).items = [] ∧ (firstRemoved.nodePage none 1 0).next = some 1 ∧
      (∀ fuel, untilEmpty (fun after => firstRemoved.nodePage none 1 (after.getD 0)) fuel none =
        []) ∧
      (firstRemoved.graphNodes none).map Prod.fst = [2]) ∧
    ((typesReversed.scanDirectedAdjacencyPage .outgoing 1 none 10 none).items.map fun e =>
      e.2.id) = [2, 1] := by
  have hitems : (firstRemoved.nodePage none 1 0).items = [] := by
    decide +kernel
  refine ⟨⟨hitems, by decide +kernel, fun fuel => ?_, by decide +kernel⟩, by decide +kernel⟩
  cases fuel with
  | zero => rfl
  | succ fuel =>
    unfold untilEmpty
    rw [Option.getD_none, hitems]

end IndexedSnapshot

end Lithograph.Storage
