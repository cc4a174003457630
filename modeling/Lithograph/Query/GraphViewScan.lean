/-
  File:      Lithograph/Query/GraphViewScan.lean
  Subject:   Scanning the nodes of a graph view, page by page (`query/graph.rs`,
             `query/stream/match_pipeline.rs`).

  The scan starts from a label where there is one, and from the pages of several labels where one of
  them is asked for. Work accounting, memory and cancellation are left out.

  * **`view_scans`**: the scan gives the nodes of the view just where each of its merged pages is
    right.
-/
import Lithograph.Library.PageRuns
import Lithograph.Library.Smallest
import Lithograph.Query.GraphView
import Lithograph.Storage.ScanRuns
import Mathlib.Data.List.Dedup

namespace Lithograph.Query

open Std (ExtTreeMap ExtTreeSet)
open Library Storage

/-! ## 1. Selectors -/

structure GraphViewSelector where
  requireAllLabels : ExtTreeSet Text := ∅
  requireAnyLabels : ExtTreeSet Text := ∅
  excludeAnyLabels : ExtTreeSet Text := ∅

namespace ResolvedGraphView

/-- `ResolvedGraphView::resolve`; the dictionary answers `find_label`. -/
def resolve (findLabel : Text → Option LabelId) (selector : GraphViewSelector) :
    ResolvedGraphView where
  required := selector.requireAllLabels.toList.filterMap findLabel
  any := selector.requireAnyLabels.toList.filterMap findLabel
  anyRequired := !selector.requireAnyLabels.isEmpty
  excluded := selector.excludeAnyLabels.toList.filterMap findLabel
  requiredUnknown := selector.requireAllLabels.toList.any fun name => (findLabel name).isNone

variable (view : ResolvedGraphView)

def onlyKnownLabel (labels : List LabelId) (label : LabelId) : Bool :=
  labels.all fun required => required == label

/-- `visible_existing_node_inner`, with the label a scan has found the node by. -/
def visibleExistingNodeKnown (s : Snapshot) (node : NodeId) (known : Option LabelId) : Bool :=
  if view.requiredUnknown then false
  else if view.isFullGraph then true
  else
    match known with
    | some label =>
      if view.excluded.contains label then false
      else if view.excluded.isEmpty && onlyKnownLabel view.required label &&
          (!view.anyRequired || view.any.contains label) then true
      else view.visibleLabels s node
    | none => view.visibleLabels s node

def isEmpty : Bool := view.requiredUnknown || (view.anyRequired && view.any.isEmpty)

def scanLabel : Option LabelId :=
  if view.requiredUnknown then none
  else view.required.head?.or
    (if view.anyRequired && view.any.length == 1 then view.any.head? else none)

def scanAnyLabelsAfter (s : IndexedSnapshot) (after : Int) (limit : Nat) : Page NodeId Unit :=
  let items := view.any.foldl (fun candidates label =>
    ((s.nodePage (some label) limit after).items.map Prod.fst).foldl (keepSmallest limit)
      candidates) []
  { items := items.map fun node => (node, ())
    next := if items.length == limit then items.getLast? else none }

/-- `scan_nodes_after`: a page, and the label its nodes are known to have. -/
def scanNodesAfter (s : IndexedSnapshot) (patternLabel : Option LabelId) (after : Int)
    (limit : Nat) : Page NodeId Unit × Option LabelId :=
  let limit := max limit 1
  if view.isEmpty then (⟨[], none⟩, none)
  else
    match patternLabel.or view.scanLabel with
    | some label => (s.nodePage (some label) limit after, some label)
    | none =>
      if !view.anyRequired then (s.nodePage none limit after, none)
      else (view.scanAnyLabelsAfter s after limit, none)

/-- A page as the loop over it hands it out: `node_matches_scanned`, for a pattern that asks no
    more. -/
def viewPage (s : IndexedSnapshot) (patternLabel : Option LabelId) (limit : Nat)
    (after : Option NodeId) : Page NodeId Unit :=
  let scanned := view.scanNodesAfter s patternLabel (after.getD 0) limit
  scanned.1.filter fun node => view.visibleExistingNodeKnown s.snapshot node scanned.2

end ResolvedGraphView

/-! ## 2. Visibility -/

/-- The node has the label of this name. -/
def carries (findLabel : Text → Option LabelId) (s : Snapshot) (node : NodeId) (name : Text) :
    Bool := (findLabel name).any (s.hasLabel node)

/-- A full set of labels satisfies the selector. -/
def GraphViewSelector.satisfiedBy (selector : GraphViewSelector) (has : Text → Bool) : Bool :=
  selector.requireAllLabels.toList.all has &&
    (selector.requireAnyLabels.isEmpty || selector.requireAnyLabels.toList.any has) &&
    !selector.excludeAnyLabels.toList.any has

/-- A dictionary gives two names two numbers. -/
def Distinguishes (findLabel : Text → Option LabelId) : Prop :=
  ∀ name name' id, findLabel name = some id → findLabel name' = some id → name = name'

theorem countP_contains_eq {α : Type} [BEq α] [LawfulBEq α] {labels required : List α}
    (hlabels : labels.Nodup) (hrequired : required.Nodup) :
    (labels.countP required.contains == required.length) = required.all labels.contains := by
  have hfilter : (labels.filter required.contains).Nodup := hlabels.filter _
  have hsubset : labels.filter required.contains ⊆ required := fun a ha =>
    List.contains_iff_mem.mp (List.mem_filter.mp ha).2
  have hsubperm := List.subperm_of_subset hfilter hsubset
  rw [Bool.eq_iff_iff, beq_iff_eq, List.countP_eq_length_filter, List.all_eq_true]
  constructor
  · intro h a ha
    have hperm := hsubperm.perm_of_length_le (by omega)
    exact List.contains_iff_mem.mpr (List.mem_filter.mp (hperm.mem_iff.mpr ha)).1
  · intro h
    have hback : required ⊆ labels.filter required.contains := fun a ha =>
      List.mem_filter.mpr ⟨List.contains_iff_mem.mp (h a ha), List.contains_iff_mem.mpr ha⟩
    have hle := (List.subperm_of_subset hrequired hback).length_le
    have hge := hsubperm.length_le
    omega

theorem any_contains_comm {α : Type} [BEq α] [LawfulBEq α] (labels selected : List α) :
    labels.any selected.contains = selected.any labels.contains := by
  rw [Bool.eq_iff_iff, List.any_eq_true, List.any_eq_true]
  simp only [List.contains_iff_mem]
  exact exists_congr fun _ => and_comm

section

open ResolvedGraphView

variable {findLabel : Text → Option LabelId} {selector : GraphViewSelector} {s : Snapshot}
  {node : NodeId}

theorem nodup_resolved (hfind : Distinguishes findLabel) (names : ExtTreeSet Text) :
    (names.toList.filterMap findLabel).Nodup := by
  refine List.Nodup.filterMap (fun name name' id h h' => hfind name name' id h h') ?_
  have hdistinct := @ExtTreeSet.distinct_toList _ _ names _
  exact hdistinct.imp fun h heq => h (Std.LawfulEqOrd.compare_eq_iff_eq.mpr heq)

theorem nodup_visitNodeLabels (hs : s.Formed) : (s.visitNodeLabels node).Nodup := by
  rw [Snapshot.visitNodeLabels_eq hs]
  refine List.pairwise_map.mpr (List.Pairwise.imp_of_mem ?_ ((sorted_toList _).filter _))
  intro a b ha hb hlt heq
  have hnode := (of_decide_eq_true (List.mem_filter.mp ha).2).trans
    (of_decide_eq_true (List.mem_filter.mp hb).2).symm
  exact compare_lt_irrefl a.1 (show compare a.1 a.1 = .lt from by
    have hrow : a.1 = b.1 := Prod.ext hnode heq
    rw [KeyLt, ← hrow] at hlt
    exact hlt)

theorem contains_labels (hs : s.Formed) (label : LabelId) :
    (s.visitNodeLabels node).contains label = s.hasLabel node label := by
  rw [Snapshot.hasLabel_eq_graph hs]
  exact Snapshot.contains_visitNodeLabels hs (node, label)

theorem any_resolved (names : List Text) :
    (names.filterMap findLabel).any (s.hasLabel node) = names.any (carries findLabel s node) := by
  induction names with
  | nil => rfl
  | cons name names ih =>
    rw [List.filterMap_cons, List.any_cons, ← ih, carries]
    cases findLabel name with
    | none => rfl
    | some id => rfl

theorem all_resolved {names : List Text}
    (hknown : (names.any fun name => (findLabel name).isNone) = false) :
    (names.filterMap findLabel).all (s.hasLabel node) = names.all (carries findLabel s node) := by
  induction names with
  | nil => rfl
  | cons name names ih =>
    rw [List.any_cons, Bool.or_eq_false_iff] at hknown
    rw [List.filterMap_cons, List.all_cons, ← ih hknown.2, carries]
    cases hfind : findLabel name with
    | none =>
      rw [hfind] at hknown
      cases hknown.1
    | some id => rfl

theorem visibleLabels_lists (hs : s.Formed) {view : ResolvedGraphView}
    (hrequired : view.required.Nodup) :
    view.visibleLabels s node = (view.required.all (s.hasLabel node) &&
      (!view.anyRequired || view.any.any (s.hasLabel node)) &&
        !view.excluded.any (s.hasLabel node)) := by
  have hcontains : (s.visitNodeLabels node).contains = s.hasLabel node :=
    funext fun label => contains_labels hs label
  unfold visibleLabels
  dsimp only
  rw [countP_contains_eq (nodup_visitNodeLabels hs) hrequired, any_contains_comm,
    any_contains_comm _ view.excluded, hcontains]

/-- **The full label set is looked at as the selector says.** -/
theorem visibleLabels_eq (hs : s.Formed) (hfind : Distinguishes findLabel)
    (hknown : (resolve findLabel selector).requiredUnknown = false) :
    (resolve findLabel selector).visibleLabels s node =
      selector.satisfiedBy (carries findLabel s node) := by
  rw [visibleLabels_lists hs (nodup_resolved hfind _), GraphViewSelector.satisfiedBy,
    ← all_resolved hknown, ← any_resolved, ← any_resolved]
  unfold resolve
  rw [Bool.not_not]

theorem satisfiedBy_unknown (hunknown : (resolve findLabel selector).requiredUnknown = true) :
    selector.satisfiedBy (carries findLabel s node) = false := by
  obtain ⟨name, hname, hnone⟩ := List.any_eq_true.mp hunknown
  have hnot : carries findLabel s node name = false := by
    rw [carries, Option.isNone_iff_eq_none.mp hnone]
    rfl
  have hall : selector.requireAllLabels.toList.all (carries findLabel s node) = false :=
    List.all_eq_false.mpr ⟨name, hname, by rw [hnot]; decide⟩
  rw [GraphViewSelector.satisfiedBy, hall]
  rfl

theorem visibleExistingNode_eq (hs : s.Formed) (hfind : Distinguishes findLabel) :
    (resolve findLabel selector).visibleExistingNode s node =
      selector.satisfiedBy (carries findLabel s node) := by
  unfold visibleExistingNode
  split
  · next hunknown => exact (satisfiedBy_unknown hunknown).symm
  · next hknown =>
    rw [← visibleLabels_eq hs hfind (Bool.eq_false_iff.mpr hknown)]
    split
    · next hfull =>
      -- nothing is asked for, and nothing is excluded
      unfold isFullGraph at hfull
      simp only [Bool.and_eq_true, Bool.not_eq_true', List.isEmpty_iff] at hfull
      obtain ⟨⟨⟨_, hrequired⟩, hany⟩, hexcluded⟩ := hfull
      unfold visibleLabels
      rw [hrequired, hany, hexcluded]
      simp
    · rfl

/-- **The known label decides as the full label set does.** -/
theorem visibleExistingNodeKnown_eq (hs : s.Formed) (hfind : Distinguishes findLabel)
    {known : Option LabelId} (hhas : known.all (s.hasLabel node) = true) :
    (resolve findLabel selector).visibleExistingNodeKnown s node known =
      selector.satisfiedBy (carries findLabel s node) := by
  rw [← visibleExistingNode_eq hs hfind]
  unfold visibleExistingNodeKnown visibleExistingNode
  cases known with
  | none => rfl
  | some label =>
    split
    · rfl
    · split
      · rfl
      · rw [visibleLabels_lists hs (nodup_resolved hfind _)]
        dsimp only
        split
        · next hexcluded =>
          have hout : (resolve findLabel selector).excluded.any (s.hasLabel node) = true :=
            List.any_eq_true.mpr ⟨label, List.contains_iff_mem.mp hexcluded, hhas⟩
          rw [hout]
          simp
        · split
          · next hshort =>
            simp only [Bool.and_eq_true, List.isEmpty_iff] at hshort
            obtain ⟨⟨hexcluded, honly⟩, hany⟩ := hshort
            have hall : (resolve findLabel selector).required.all (s.hasLabel node) = true :=
              List.all_eq_true.mpr fun required hrequired =>
                (beq_iff_eq.mp (List.all_eq_true.mp honly required hrequired)) ▸ hhas
            have hsome : (!(resolve findLabel selector).anyRequired ||
                (resolve findLabel selector).any.any (s.hasLabel node)) = true := by
              rw [Bool.or_eq_true] at hany ⊢
              refine hany.imp_right fun hmem => ?_
              exact List.any_eq_true.mpr ⟨label, List.contains_iff_mem.mp hmem, hhas⟩
            rw [hall, hsome, hexcluded]
            rfl
          · rfl

end

/-! ## 3. Scans that start from one label -/

/-- The nodes of a view, those with the label of the pattern where it has one. -/
def viewNodes (s : IndexedSnapshot) (findLabel : Text → Option LabelId)
    (selector : GraphViewSelector) (patternLabel : Option LabelId) : List (NodeId × Unit) :=
  (s.graphNodes none).filter fun e => patternLabel.all (s.snapshot.hasLabel e.1) &&
    selector.satisfiedBy (carries findLabel s.snapshot e.1)

variable {label : LabelId} {node : NodeId}

section

variable {s : IndexedSnapshot} {tuples : RelationshipTuples}

theorem mem_labelNodes (hs : s.Sound) :
    (node, ()) ∈ s.graphNodes (some label) ↔ s.snapshot.hasLabel node label = true := by
  rw [IndexedSnapshot.mem_graphNodes, Snapshot.hasLabel_eq_graph hs.formed]
  constructor
  · intro h
    rw [h]
    rfl
  · intro h
    obtain ⟨u, hu⟩ := Option.isSome_iff_exists.mp h
    exact hu

theorem mem_graphNodes_of_label (hs : s.Valid tuples) (h : s.snapshot.hasLabel node label = true) :
    (node, ()) ∈ s.graphNodes none := by
  rw [Snapshot.hasLabel_eq_graph hs.sound.formed] at h
  obtain ⟨u, hu⟩ := Option.isSome_iff_exists.mp (hs.consistent.labels (node, label) h)
  exact IndexedSnapshot.mem_graphNodes.mpr hu

theorem labelNodes_filter (hs : s.Valid tuples) (label : LabelId) (p : NodeId → Bool) :
    (s.graphNodes (some label)).filter (fun e => p e.1) =
      (s.graphNodes none).filter fun e => s.snapshot.hasLabel e.1 label && p e.1 := by
  refine eq_of_sorted ((IndexedSnapshot.graphNodes_sorted _).filter _)
    ((IndexedSnapshot.graphNodes_sorted _).filter _) fun e => ?_
  have hlabel : e ∈ s.graphNodes (some label) ↔ s.snapshot.hasLabel e.1 label = true :=
    mem_labelNodes hs.sound
  rw [List.mem_filter, List.mem_filter, Bool.and_eq_true, hlabel]
  constructor
  · intro h
    exact ⟨mem_graphNodes_of_label hs h.1, h⟩
  · intro h
    exact h.2

theorem filtered_listed (hn : Numbered s) (hs : s.Sound) (label : Option LabelId) (limit : Nat)
    (p : NodeId → Bool) :
    Lists (fun after => (s.nodePage label limit (after.getD 0)).filter p)
      ((s.graphNodes label).filter fun e => p e.1) := by
  obtain ⟨rounds, hrounds⟩ := IndexedSnapshot.nodes_listed hn hs label limit
  refine ⟨rounds, fun fuel hfuel => ?_⟩
  rw [scanAll_filter p fun after => s.nodePage label limit (after.getD 0), hrounds fuel hfuel]

end

/-! ## 4. Pages merged from several labels -/

namespace ResolvedGraphView

/-- The nodes on the pages of the selected labels. -/
def labelPages (view : ResolvedGraphView) (s : IndexedSnapshot) (after : Int) (limit : Nat) :
    List NodeId :=
  view.any.flatMap fun label => (s.nodePage (some label) limit after).items.map Prod.fst

/-- Where the page of a selected label breaks off, each visible node of that label further on is on
    another page, or there are enough nodes before it. -/
def WholePages (view : ResolvedGraphView) (s : IndexedSnapshot) (after : Int) (limit : Nat) :
    Prop :=
  ∀ label ∈ view.any, ∀ stop, (s.nodePage (some label) limit after).next = some stop →
    ∀ node, stop < node → s.snapshot.hasLabel node label = true →
      view.visibleLabels s.snapshot node = true → node ∉ view.labelPages s after limit →
        limit ≤ ((view.labelPages s after limit).dedup.filter (· < node)).length

variable {view : ResolvedGraphView} {s : IndexedSnapshot} {tuples : RelationshipTuples}
  {after : Int} {limit : Nat}

theorem isPage_label (hn : Numbered s) (hs : s.Sound) (label : LabelId) :
    IsPage (s.graphNodes (some label)) (some after) (s.nodePage (some label) limit after) := by
  rw [IndexedSnapshot.nodePage_eq hn hs]
  exact IndexedSnapshot.scanNodes_page hs _ _ _

theorem mem_labelPages (hn : Numbered s) (hs : s.Sound) :
    node ∈ view.labelPages s after limit ↔ ∃ label ∈ view.any,
      s.snapshot.hasLabel node label = true ∧ after < node ∧
        Within (s.nodePage (some label) limit after).next node := by
  have hitem : ∀ label, node ∈ (s.nodePage (some label) limit after).items.map Prod.fst ↔
      s.snapshot.hasLabel node label = true ∧ after < node ∧
        Within (s.nodePage (some label) limit after).next node := by
    intro label
    rw [← mem_labelNodes hs, ← beyond_int, ← (isPage_label hn hs label).mem (node, ()),
      List.mem_map]
    exact ⟨fun ⟨_, he, hnode⟩ => hnode ▸ he, fun he => ⟨_, he, rfl⟩⟩
  rw [labelPages, List.mem_flatMap]
  exact exists_congr fun label => and_congr_right fun _ => hitem label

/-- The nodes of a merged page. -/
def mergedNodes (view : ResolvedGraphView) (s : IndexedSnapshot) (after : Int) (limit : Nat) :
    List NodeId := (view.labelPages s after limit).foldl (keepSmallest limit) []

theorem mergedNodes_smallest : Smallest limit (· ∈ view.labelPages s after limit)
    (view.mergedNodes s after limit) := by
  have hfold := (Smallest.nil limit).fold (view.labelPages s after limit)
  simp only [false_or] at hfold
  exact hfold

/-- Where the page after a merged page starts. -/
def mergedNext (view : ResolvedGraphView) (s : IndexedSnapshot) (after : Int) (limit : Nat) :
    Option NodeId :=
  let nodes := view.mergedNodes s after limit
  if nodes.length == limit then nodes.getLast? else none

theorem scanAnyLabelsAfter_eq : view.scanAnyLabelsAfter s after limit =
    ⟨(view.mergedNodes s after limit).map fun node => (node, ()),
      view.mergedNext s after limit⟩ := by
  rw [scanAnyLabelsAfter, mergedNext, mergedNodes, labelPages, List.foldl_flatMap]

theorem within_int {next : Option NodeId} :
    Within next node ↔ ∀ stop, next = some stop → node ≤ stop :=
  forall_congr' fun _ => imp_congr_right fun _ => Int.isLE_compare

theorem beyond_start {start : Option NodeId} (hpos : 0 < node) :
    Beyond start node ↔ start.getD 0 < node := by
  cases start with
  | none => exact ⟨fun _ => hpos, fun _ _ h => nomatch h⟩
  | some after => exact beyond_int

theorem mergedNext_some {stop : NodeId} (h : view.mergedNext s after limit = some stop) :
    (view.mergedNodes s after limit).length = limit ∧ stop ∈ view.mergedNodes s after limit ∧
      ∀ node ∈ view.mergedNodes s after limit, node ≤ stop := by
  unfold mergedNext at h
  dsimp only at h
  split at h
  · next hfull =>
    obtain ⟨front, hfront⟩ := List.getLast?_eq_some_iff.mp h
    have hsmallest : Smallest limit (· ∈ view.labelPages s after limit)
        (view.mergedNodes s after limit) := mergedNodes_smallest
    have hascending := hsmallest.ascending
    refine ⟨beq_iff_eq.mp hfull, ?_⟩
    rw [hfront] at hascending ⊢
    refine ⟨List.mem_append_right _ (.head _), fun node hnode => ?_⟩
    obtain hnode | hnode := List.mem_append.mp hnode
    · exact le_of_lt ((List.pairwise_append.mp hascending).2.2 node hnode stop (.head _))
    · exact le_of_eq (List.mem_singleton.mp hnode)
  · cases h

theorem within_mergedNext (hlimit : 0 < limit) : Within (view.mergedNext s after limit) node ↔
      ¬ ((view.mergedNodes s after limit).length = limit ∧
        ∀ other ∈ view.mergedNodes s after limit, other < node) := by
  rw [within_int]
  constructor
  · intro h hfull
    obtain ⟨hlength, hall⟩ := hfull
    have hnonempty := List.ne_nil_of_length_pos (hlength.symm ▸ hlimit)
    have hnext : view.mergedNext s after limit =
        some ((view.mergedNodes s after limit).getLast hnonempty) := by
      unfold mergedNext
      rw [if_pos (beq_iff_eq.mpr hlength), List.getLast?_eq_some_getLast hnonempty]
    exact not_lt.mpr (h _ hnext) (hall _ (List.getLast_mem hnonempty))
  · intro h stop hstop
    obtain ⟨hlength, _, hle⟩ := mergedNext_some hstop
    by_contra hlt
    exact h ⟨hlength, fun other hother => lt_of_le_of_lt (hle other hother) (not_le.mp hlt)⟩

theorem forward_merged (hn : Numbered s) (hs : s.Valid tuples) :
    Forward (fun start => view.scanAnyLabelsAfter s (start.getD 0) limit)
      ((s.graphNodes none).map Prod.fst) := by
  have hitem : ∀ (start : Option NodeId), ∀ node ∈ view.mergedNodes s (start.getD 0) limit,
      Beyond start node ∧ (node, ()) ∈ s.graphNodes none := by
    intro start node hnode
    obtain ⟨label, _, hhas, hbehind, _⟩ :=
      (mem_labelPages hn hs.sound).mp (mergedNodes_smallest.within node hnode)
    have hin := mem_graphNodes_of_label hs hhas
    exact ⟨(beyond_start (IndexedSnapshot.graphNodes_positive hn none _ hin)).mpr hbehind, hin⟩
  constructor
  · intro start e he
    rw [scanAnyLabelsAfter_eq] at he ⊢
    obtain ⟨node, hnode, rfl⟩ := List.mem_map.mp he
    exact ⟨(hitem start node hnode).1,
      within_int.mpr fun stop hstop => (mergedNext_some hstop).2.2 node hnode⟩
  · intro start stop hstop
    rw [scanAnyLabelsAfter_eq] at hstop
    obtain ⟨_, hmem, _⟩ := mergedNext_some hstop
    exact ⟨(hitem start stop hmem).1, List.mem_map.mpr ⟨_, (hitem start stop hmem).2, rfl⟩⟩

/-- **A merged page is right just where its sources are whole.** -/
theorem mergedPage_iff (hn : Numbered s) (hs : s.Valid tuples) (hrequired : view.required.Nodup)
    (hany : view.anyRequired = true) (hlimit : 0 < limit) (start : Option NodeId) :
    IsPage ((s.graphNodes none).filter fun e => view.visibleLabels s.snapshot e.1) start
        ((view.scanAnyLabelsAfter s (start.getD 0) limit).filter (view.visibleLabels s.snapshot)) ↔
      view.WholePages s (start.getD 0) limit := by
  have hsmallest := @mergedNodes_smallest view s (start.getD 0) limit
  have hpositive : ∀ node, (node, ()) ∈ s.graphNodes none → 0 < node := fun node =>
    IndexedSnapshot.graphNodes_positive hn none (node, ())
  have hitems : ∀ e, e ∈ ((view.scanAnyLabelsAfter s (start.getD 0) limit).filter
      (view.visibleLabels s.snapshot)).items ↔ e.1 ∈ view.mergedNodes s (start.getD 0) limit ∧
        view.visibleLabels s.snapshot e.1 = true := by
    intro e
    rw [scanAnyLabelsAfter_eq, Page.filter, List.mem_filter, List.mem_map]
    exact and_congr_left fun _ => ⟨fun ⟨_, hnode, he⟩ => he ▸ hnode, fun h => ⟨e.1, h, rfl⟩⟩
  have hnext : ((view.scanAnyLabelsAfter s (start.getD 0) limit).filter
      (view.visibleLabels s.snapshot)).next = view.mergedNext s (start.getD 0) limit := by
    rw [scanAnyLabelsAfter_eq]
    rfl
  constructor
  · intro hpage label hlabel stop hstop node hlt hhas hvisible hnot
    have hin := mem_graphNodes_of_label hs hhas
    have hbehind := beyond_int.mp ((isPage_label hn hs.sound label).progress stop hstop)
    have hout : ¬ Within (view.mergedNext s (start.getD 0) limit) node := by
      intro hwithin
      refine hnot (hsmallest.within node ((hitems (node, ())).mp ((hpage.mem _).mpr
        ⟨List.mem_filter.mpr ⟨hin, hvisible⟩, ?_, hnext ▸ hwithin⟩)).1)
      exact (beyond_start (hpositive node hin)).mpr (lt_trans hbehind hlt)
    rw [within_mergedNext hlimit, not_not] at hout
    obtain ⟨hfull, hbelow⟩ := hout
    have hsubset : view.mergedNodes s (start.getD 0) limit ⊆
        (view.labelPages s (start.getD 0) limit).dedup.filter (· < node) := fun other hother =>
      List.mem_filter.mpr ⟨List.mem_dedup.mpr (hsmallest.within other hother),
        decide_eq_true (hbelow other hother)⟩
    have hle := (List.subperm_of_subset (hsmallest.ascending.imp ne_of_lt) hsubset).length_le
    omega
  · intro hwhole
    refine ⟨?_, fun e => ?_, fun stop hstop => ?_⟩
    · rw [scanAnyLabelsAfter_eq]
      refine List.Pairwise.filter _ (List.pairwise_map.mpr (hsmallest.ascending.imp fun h => ?_))
      exact Int.compare_eq_lt.mpr h
    · rw [hitems, hnext, List.mem_filter, within_mergedNext hlimit]
      constructor
      · intro h
        obtain ⟨label, _, hhas, hbehind, _⟩ :=
          (mem_labelPages hn hs.sound).mp (hsmallest.within e.1 h.1)
        have hin := mem_graphNodes_of_label hs hhas
        refine ⟨⟨hin, h.2⟩, (beyond_start (hpositive e.1 hin)).mpr hbehind, fun hfull => ?_⟩
        exact lt_irrefl _ (hfull.2 e.1 h.1)
      · intro h
        obtain ⟨⟨hin, hvisible⟩, hbeyond, hout⟩ := h
        refine ⟨?_, hvisible⟩
        by_contra hnot
        apply hout
        by_cases hpaged : e.1 ∈ view.labelPages s (start.getD 0) limit
        · exact hsmallest.rest e.1 hpaged hnot
        · -- the page of its label breaks off before the node
          obtain ⟨label, hlabel, hhas⟩ : ∃ label ∈ view.any,
              s.snapshot.hasLabel e.1 label = true := by
            have hlists := hvisible
            rw [visibleLabels_lists hs.sound.formed hrequired, hany] at hlists
            simp only [Bool.and_eq_true, Bool.not_true, Bool.false_or] at hlists
            exact List.any_eq_true.mp hlists.1.2
          obtain ⟨stop, hstop, hlt⟩ : ∃ stop,
              (s.nodePage (some label) limit (start.getD 0)).next = some stop ∧ stop < e.1 := by
            by_contra hnone
            refine hpaged ((mem_labelPages hn hs.sound).mpr ⟨label, hlabel, hhas,
              (beyond_start (hpositive e.1 hin)).mp hbeyond, within_int.mpr fun stop hstop => ?_⟩)
            exact not_lt.mp fun hlt => hnone ⟨stop, hstop, hlt⟩
          refine hsmallest.full_below ((List.nodup_dedup _).filter _) (fun other hother => ?_)
            (hwhole label hlabel stop hstop e.1 hlt hhas hvisible hpaged)
          obtain ⟨hmem, hbelow⟩ := List.mem_filter.mp hother
          exact ⟨List.mem_dedup.mp hmem, of_decide_eq_true hbelow⟩
    · obtain ⟨_, hmem, _⟩ := mergedNext_some (hnext ▸ hstop)
      obtain ⟨label, _, hhas, hbehind, _⟩ :=
        (mem_labelPages hn hs.sound).mp (hsmallest.within stop hmem)
      exact (beyond_start (hpositive stop (mem_graphNodes_of_label hs hhas))).mpr hbehind

/-! ## 5. The scan of a view -/

/-- The scan merges the pages of several labels. -/
def mergesLabels (view : ResolvedGraphView) (patternLabel : Option LabelId) : Bool :=
  !view.isEmpty && (patternLabel.or view.scanLabel).isNone && view.anyRequired

variable {findLabel : Text → Option LabelId} {selector : GraphViewSelector}
  {patternLabel : Option LabelId}

theorem satisfiedBy_empty (hs : s.Valid tuples) (hfind : Distinguishes findLabel)
    (hempty : (resolve findLabel selector).isEmpty = true) (node : NodeId) :
    selector.satisfiedBy (carries findLabel s.snapshot node) = false := by
  cases hknown : (resolve findLabel selector).requiredUnknown with
  | true => exact satisfiedBy_unknown hknown
  | false =>
    rw [isEmpty, hknown, Bool.false_or, Bool.and_eq_true, List.isEmpty_iff] at hempty
    rw [← visibleLabels_eq hs.sound.formed hfind hknown,
      visibleLabels_lists hs.sound.formed (nodup_resolved hfind _), hempty.1, hempty.2]
    simp

theorem hasLabel_scanLabel (hs : s.Valid tuples) (hfind : Distinguishes findLabel)
    (hlabel : (resolve findLabel selector).scanLabel = some label)
    (hnode : selector.satisfiedBy (carries findLabel s.snapshot node) = true) :
    s.snapshot.hasLabel node label = true := by
  unfold scanLabel at hlabel
  split at hlabel
  · cases hlabel
  · next hknown =>
    rw [← visibleLabels_eq hs.sound.formed hfind (Bool.eq_false_iff.mpr hknown),
      visibleLabels_lists hs.sound.formed (nodup_resolved hfind _)] at hnode
    simp only [Bool.and_eq_true] at hnode
    obtain ⟨⟨hall, hsome⟩, _⟩ := hnode
    obtain hfirst | ⟨_, hsingle⟩ := Option.or_eq_some_iff.mp hlabel
    · exact List.all_eq_true.mp hall label (List.mem_of_head? hfirst)
    · split at hsingle
      · next hone =>
        simp only [Bool.and_eq_true, beq_iff_eq] at hone
        obtain ⟨other, hother⟩ := List.length_eq_one_iff.mp hone.2
        rw [hone.1, hother] at hsome
        rw [hother] at hsingle
        obtain rfl := Option.some.inj hsingle
        simpa using hsome
      · cases hsingle

theorem viewNodes_label (hs : s.Valid tuples) (hfind : Distinguishes findLabel)
    (hlabel : patternLabel.or (resolve findLabel selector).scanLabel = some label) :
    viewNodes s findLabel selector patternLabel = (s.graphNodes (some label)).filter fun e =>
      (resolve findLabel selector).visibleExistingNodeKnown s.snapshot e.1 (some label) := by
  have hvisible := fun node => @visibleExistingNodeKnown_eq findLabel selector s.snapshot node
    hs.sound.formed hfind (some label)
  rw [labelNodes_filter hs label fun node =>
    (resolve findLabel selector).visibleExistingNodeKnown s.snapshot node (some label), viewNodes]
  refine List.filter_congr fun e _ => ?_
  cases hhas : s.snapshot.hasLabel e.1 label with
  | true =>
    rw [hvisible e.1 hhas, Bool.true_and]
    cases patternLabel with
    | none => rfl
    | some pattern =>
      obtain rfl := Option.some.inj hlabel
      rw [Option.all_some, hhas, Bool.true_and]
  | false =>
    rw [Bool.false_and]
    cases patternLabel with
    | some pattern =>
      obtain rfl := Option.some.inj hlabel
      rw [Option.all_some, hhas, Bool.false_and]
    | none =>
      rw [Option.all_none, Bool.true_and, Bool.eq_false_iff]
      intro hnode
      rw [hasLabel_scanLabel hs hfind hlabel hnode] at hhas
      cases hhas

/-- **A scan that is not merged gives the nodes of the view.** -/
theorem viewPage_listed (hn : Numbered s) (hs : s.Valid tuples) (hfind : Distinguishes findLabel)
    (hmerges : (resolve findLabel selector).mergesLabels patternLabel = false) :
    Lists ((resolve findLabel selector).viewPage s patternLabel limit)
      (viewNodes s findLabel selector patternLabel) := by
  cases hempty : (resolve findLabel selector).isEmpty with
  | true =>
    have hnone : viewNodes s findLabel selector patternLabel = [] := by
      refine List.filter_eq_nil_iff.mpr fun e _ => ?_
      rw [satisfiedBy_empty hs hfind hempty, Bool.and_false]
      decide
    rw [hnone]
    refine ⟨0, fun fuel _ => ?_⟩
    cases fuel with
    | zero => rfl
    | succ fuel =>
      have hpage : (resolve findLabel selector).viewPage s patternLabel limit none =
          ⟨[], none⟩ := by
        rw [viewPage, scanNodesAfter, if_pos hempty]
        rfl
      rw [scanAll, hpage]
  | false =>
    rw [mergesLabels, hempty] at hmerges
    cases hlabel : patternLabel.or (resolve findLabel selector).scanLabel with
    | some label =>
      have hpage : (resolve findLabel selector).viewPage s patternLabel limit = fun after =>
          (s.nodePage (some label) (max limit 1) (after.getD 0)).filter fun node =>
            (resolve findLabel selector).visibleExistingNodeKnown s.snapshot node (some label) := by
        funext after
        rw [viewPage, scanNodesAfter, if_neg (by rw [hempty]; decide), hlabel]
      rw [hpage, viewNodes_label hs hfind hlabel]
      exact filtered_listed hn hs.sound _ _ _
    | none =>
      rw [hlabel] at hmerges
      have hall : (resolve findLabel selector).anyRequired = false := hmerges
      have hpage : (resolve findLabel selector).viewPage s patternLabel limit = fun after =>
          (s.nodePage none (max limit 1) (after.getD 0)).filter fun node =>
            (resolve findLabel selector).visibleExistingNodeKnown s.snapshot node none := by
        funext after
        rw [viewPage, scanNodesAfter, if_neg (by rw [hempty]; decide), hlabel, hall]
        rfl
      have hnodes : viewNodes s findLabel selector patternLabel =
          (s.graphNodes none).filter fun e =>
            (resolve findLabel selector).visibleExistingNodeKnown s.snapshot e.1 none := by
        obtain ⟨rfl, _⟩ := Option.or_eq_none_iff.mp hlabel
        refine List.filter_congr fun e _ => ?_
        rw [visibleExistingNodeKnown_eq hs.sound.formed hfind rfl]
        rfl
      rw [hpage, hnodes]
      exact filtered_listed hn hs.sound _ _ _

/-- **A merged scan does just where each of its pages has whole sources.** -/
theorem viewPage_merged (hn : Numbered s) (hs : s.Valid tuples) (hfind : Distinguishes findLabel)
    (hmerges : (resolve findLabel selector).mergesLabels patternLabel = true) :
    Lists ((resolve findLabel selector).viewPage s patternLabel limit)
        (viewNodes s findLabel selector patternLabel) ↔
      ∀ start, Reached ((resolve findLabel selector).viewPage s patternLabel limit) start →
        (resolve findLabel selector).WholePages s (start.getD 0) (max limit 1) := by
  rw [mergesLabels] at hmerges
  simp only [Bool.and_eq_true, Bool.not_eq_true', Option.isNone_iff_eq_none] at hmerges
  obtain ⟨⟨hempty, hlabel⟩, hany⟩ := hmerges
  obtain ⟨rfl, _⟩ := Option.or_eq_none_iff.mp hlabel
  have hknown : (resolve findLabel selector).requiredUnknown = false :=
    (Bool.or_eq_false_iff.mp hempty).1
  have hlimit : 0 < max limit 1 := by omega
  have hvisible : (fun node =>
      (resolve findLabel selector).visibleExistingNodeKnown s.snapshot node none) =
        (resolve findLabel selector).visibleLabels s.snapshot := by
    funext node
    rw [visibleExistingNodeKnown_eq hs.sound.formed hfind rfl,
      visibleLabels_eq hs.sound.formed hfind hknown]
  have hpage : (resolve findLabel selector).viewPage s none limit = fun start =>
      ((resolve findLabel selector).scanAnyLabelsAfter s (start.getD 0) (max limit 1)).filter
        ((resolve findLabel selector).visibleLabels s.snapshot) := by
    funext start
    rw [viewPage, scanNodesAfter, if_neg (by rw [hempty]; decide), hlabel, hany]
    exact congrArg (fun p => Page.filter p _) hvisible
  have hnodes : viewNodes s findLabel selector none =
      (s.graphNodes none).filter fun e =>
        (resolve findLabel selector).visibleLabels s.snapshot e.1 := by
    refine List.filter_congr fun e _ => ?_
    rw [visibleLabels_eq hs.sound.formed hfind hknown]
    rfl
  have hright := fun start => mergedPage_iff hn hs (nodup_resolved hfind _) hany hlimit start
  rw [hpage, hnodes, Storage.Lists, scanAll_iff ((IndexedSnapshot.graphNodes_sorted none).filter _)
    ((forward_merged hn hs).filter _)]
  exact forall_congr' fun start => imp_congr_right fun _ => hright start

end ResolvedGraphView

open ResolvedGraphView

/-- **A node is visible just where its full label set satisfies the selector, whatever label it was
    found by; a relationship where its ends are; and paging through the view gives the visible
    nodes, each once and ascending, just where each page merged from several labels is merged from
    whole pages.** -/
theorem view_scans {s : IndexedSnapshot} {tuples : RelationshipTuples}
    {findLabel : Text → Option LabelId} (hn : Numbered s) (hs : s.Valid tuples)
    (hfind : Distinguishes findLabel) (selector : GraphViewSelector) :
    (∀ node known, known.all (s.snapshot.hasLabel node) = true →
      (resolve findLabel selector).visibleExistingNodeKnown s.snapshot node known =
        selector.satisfiedBy (carries findLabel s.snapshot node)) ∧
    (∀ relationship : RelationshipRecord,
      (resolve findLabel selector).visibleRelationship s.snapshot relationship =
        ((s.snapshot.nodeExists relationship.source &&
            selector.satisfiedBy (carries findLabel s.snapshot relationship.source)) &&
          (s.snapshot.nodeExists relationship.target &&
            selector.satisfiedBy (carries findLabel s.snapshot relationship.target)))) ∧
    ∀ patternLabel limit,
      ((viewNodes s findLabel selector patternLabel).map Prod.fst).Pairwise (· < ·) ∧
      (Lists ((resolve findLabel selector).viewPage s patternLabel limit)
          (viewNodes s findLabel selector patternLabel) ↔
        ((resolve findLabel selector).mergesLabels patternLabel = true →
          ∀ start, Reached ((resolve findLabel selector).viewPage s patternLabel limit) start →
            (resolve findLabel selector).WholePages s (start.getD 0) (max limit 1))) := by
  refine ⟨fun node known hhas => visibleExistingNodeKnown_eq hs.sound.formed hfind hhas, ?_, ?_⟩
  · intro relationship
    have hvisible : ∀ node, (resolve findLabel selector).visibleNode s.snapshot node =
        (s.snapshot.nodeExists node &&
          selector.satisfiedBy (carries findLabel s.snapshot node)) := by
      intro node
      rw [← visibleExistingNode_eq hs.sound.formed hfind, visibleNode]
      cases hunknown : (resolve findLabel selector).requiredUnknown with
      | true =>
        rw [visibleExistingNode, hunknown]
        simp
      | false => cases s.snapshot.nodeExists node <;> rfl
    rw [visibleRelationship, hvisible, hvisible]
  · intro patternLabel limit
    refine ⟨IndexedSnapshot.ascending_ids ((IndexedSnapshot.graphNodes_sorted none).filter _), ?_⟩
    cases hmerges : (resolve findLabel selector).mergesLabels patternLabel with
    | true =>
      rw [viewPage_merged hn hs hfind hmerges]
      exact ⟨fun h _ => h, fun h => h rfl⟩
    | false =>
      exact ⟨fun _ h => (nomatch h), fun _ => viewPage_listed hn hs hfind hmerges⟩

/-- A dictionary of two labels. -/
def twoLabels (name : Text) : Option LabelId :=
  if name = ['A'] then some 7 else if name = ['B'] then some 8 else none

theorem twoLabels_distinguishes : Distinguishes twoLabels := by
  intro name name' id h h'
  unfold twoLabels at h h'
  grind

theorem firstRemoved_valid : IndexedSnapshot.firstRemoved.Valid ∅ := by
  refine ⟨IndexedSnapshot.firstRemoved_sound, ?_, ?_, ?_, ?_, ?_⟩
  · intro id record h
    simp [IndexedSnapshot.firstRemoved, IndexedSnapshot.base] at h
  · intro id delta h
    simp [IndexedSnapshot.firstRemoved, IndexedOverlay.insertNode] at h
  · intro row h
    rw [IndexedSnapshot.graph_labels] at h
    simp [IndexedSnapshot.firstRemoved, IndexedSnapshot.base, IndexedOverlay.insertNode] at h
  · intro id record h
    rw [IndexedSnapshot.graph_relationships] at h
    simp [IndexedSnapshot.firstRemoved, IndexedSnapshot.base, IndexedOverlay.insertNode] at h
  · intro slot value h
    rw [Snapshot.graph, GraphState.properties_apply] at h
    simp [IndexedSnapshot.firstRemoved, IndexedOverlay.insertNode, IndexedSnapshot.snapshot,
      Snapshot.base, Overlay.layer] at h

/-- The nodes without the label, where the first was removed. -/
theorem view_scans_excluded :
    Lists ((resolve twoLabels { excludeAnyLabels := (∅ : ExtTreeSet Text).insert ['A'] }).viewPage
        IndexedSnapshot.firstRemoved none 1)
      (viewNodes IndexedSnapshot.firstRemoved twoLabels
        { excludeAnyLabels := (∅ : ExtTreeSet Text).insert ['A'] } none) :=
  ((view_scans IndexedSnapshot.firstRemoved_numbered firstRemoved_valid twoLabels_distinguishes
    _).2.2 none 1).2.mpr fun h => absurd h (by decide +kernel)

/-- Two nodes with a label, of which the overlay takes it from the first. -/
def firstUnlabelled : IndexedSnapshot where
  checkpoint := some {
    nodes := ((∅ : ExtTreeMap NodeId Unit).insert 1 ()).insert 2 ()
    labels := ((∅ : ExtTreeMap (NodeId × LabelId) Unit).insert (1, 7) ()).insert (2, 7) () }
  overlay := ({} : IndexedOverlay).insertLabel (1, 7) .remove

/-- The view of the nodes with one label or another. -/
def eitherLabel : GraphViewSelector where
  requireAnyLabels := ((∅ : ExtTreeSet Text).insert ['A']).insert ['B']

/-- **The first page of the label reads the row that was removed, and the scan ends there**: the
    second node is visible, and no page has it. -/
theorem merged_scan_stops :
    viewNodes firstUnlabelled twoLabels eitherLabel none = [(2, ())] ∧
      ¬ Lists ((resolve twoLabels eitherLabel).viewPage firstUnlabelled none 1)
        (viewNodes firstUnlabelled twoLabels eitherLabel none) := by
  have hnodes : viewNodes firstUnlabelled twoLabels eitherLabel none = [(2, ())] := by
    decide +kernel
  refine ⟨hnodes, fun h => ?_⟩
  obtain ⟨rounds, hrounds⟩ := h
  have hrun := hrounds (rounds + 1) (Nat.le_succ _)
  cases hrun

end Lithograph.Query
