/-
  File:      Lithograph/Storage/StagedRuns.lean
  Subject:   A staged snapshot under any sequence of layers, some of them refused
             (`storage/snapshot_staged.rs`, `storage/snapshot.rs`).

  * `staged_layers`: each fact is what the last layer that mentions it leaves, as in the store after
    the same layers have been committed one by one.
-/
import Lithograph.Storage.StagedLayer

namespace Lithograph.Storage

open Std Library

/-! ## 1. Opening a snapshot -/

/-- A layer of a stack as a change of the overlay. -/
def StackLayer.change : StackLayer → OverlayChange
  | .stored _ rows => .persisted rows
  | .staged l => .layer l

/-- A snapshot just opened over a stack, whatever local layer it comes with. -/
structure StagedSnapshot.Opened {H L : Type} (stack : List StackLayer)
    (staged : StagedSnapshot H L) : Prop where
  overlay : (stack.map StackLayer.change).foldlM SnapshotOverlay.change {} = .ok staged.views
  owned : staged.Owned

variable {l : LayerBuilder}

namespace SnapshotOverlay

/-- **A stored layer is applied from its rows.** -/
theorem applyRows_persisted {real : RealColumn} {rows : LayerRows} (hbuilt : l.Built)
    (hrows : LayerRows.ofLayer real l = .ok rows) (o : SnapshotOverlay) :
    o.applyRows rows = .ok (o.apply l.canonical) :=
  LayerRows.visit_persisted hbuilt hrows insertNode insertLabel applyRelationshipDelta
    insertProperty o

theorem viewed_entered {o : SnapshotOverlay} (h : o.Viewed) (hl : l.Entered) : (o.apply l).Viewed :=
  viewed_apply h hl.nodes hl.labels hl.relationships fun slot delta hdelta =>
    ⟨(hl.properties slot delta hdelta).1, (hl.properties slot delta hdelta).2.1⟩

theorem viewed_canonical {o : SnapshotOverlay} (h : o.Viewed) (hl : l.Entered) :
    (o.apply l.canonical).Viewed := by
  refine viewed_apply h hl.nodes hl.labels hl.relationships fun slot delta hdelta => ?_
  have hlook : l.canonical.properties[slot]? =
      l.properties[slot]?.map PropertyDelta.canonical := ExtTreeMap.getElem?_map
  rw [hlook, Option.map_eq_some_iff] at hdelta
  obtain ⟨d, hd, _⟩ := hdelta
  exact ⟨(hl.properties slot d hd).1, (hl.properties slot d hd).2.1⟩

/-- **An overlay with its views after the layers of a stack.** -/
theorem opened {real : RealColumn} {stack : List StackLayer} (hstack : ∀ l ∈ stack, l.Valid real) :
    ∀ {o o' : SnapshotOverlay}, o.Viewed → (stack.map StackLayer.change).foldlM change o = .ok o' →
      o'.Viewed ∧ o' = (stack.map StackLayer.read).foldl apply o := by
  induction stack with
  | nil =>
    intro o o' h hopen
    cases hopen
    exact ⟨h, rfl⟩
  | cons l stack ih =>
    intro o o' h hopen
    have hl := hstack l (.head _)
    rw [List.map_cons, List.foldlM_cons] at hopen
    have hchange : o.change l.change = .ok (o.apply l.read) ∧ (o.apply l.read).Viewed := by
      cases l with
      | stored l rows => exact ⟨applyRows_persisted hl.1 hl.2 o, viewed_canonical h hl.1.toEntered⟩
      | staged l => exact ⟨rfl, viewed_entered h hl⟩
    rw [hchange.1] at hopen
    exact ih (fun l hl => hstack l (.tail _ hl)) hchange.2 hopen

theorem graph_foldl (g : GraphState) {layers : List LayerBuilder}
    (hlayers : ∀ l ∈ layers, ∀ (id : RelationshipId) delta, l.relationships[id]? = some delta →
      delta.record.id = id) :
    ∀ {o : SnapshotOverlay}, o.toIndexedOverlay.Indexed →
      g.apply (layers.foldl apply o).toOverlay.layer =
        layers.foldl GraphState.apply (g.apply o.toOverlay.layer) := by
  induction layers with
  | nil => exact fun _ => rfl
  | cons l layers ih =>
    intro o h
    have hl := hlayers l (.head _)
    obtain ⟨hindexed, htables⟩ := IndexedOverlay.applied o.toIndexedOverlay h hl
    rw [← toIndexedOverlay_apply] at hindexed htables
    rw [List.foldl_cons, List.foldl_cons,
      ih (fun l hl => hlayers l (.tail _ hl)) hindexed, htables,
      GraphState.apply_overlay]

end SnapshotOverlay

/-! ## 2. Runs -/

/-- What happens to a staged snapshot. -/
inductive StageEvent where
  | applied (layer : LayerBuilder)
  | refused (layer : LayerBuilder) (error : StorageError)
  | others

/-- Two snapshots hold the same; how many others hold it, too, may differ. -/
structure StagedSnapshot.Same {H L : Type} (staged staged' : StagedSnapshot H L) : Prop where
  localLayer : staged'.localLayer = staged.localLayer
  overlay : staged'.overlay.value = staged.overlay.value
  cacheIdentity : staged'.cacheIdentity = staged.cacheIdentity
  owned : staged'.Owned

section Runs

variable {ω H L : Type} (b : Budget ω L) (hash : Bytes → H) (advance : H → H → H)

/-- One step. A layer comes from its constructors; the world is free between two layers. -/
inductive StageStep : StageState ω H L → StageEvent → StageState ω H L → Prop
  | applied {s t : StageState ω H L} {layer : LayerBuilder} (hlayer : layer.Entered)
      (h : applyLayerChecked b hash advance layer s = .ok () t) : StageStep s (.applied layer) t
  | refused {s t : StageState ω H L} {layer : LayerBuilder} {e : StorageError}
      (h : applyLayerChecked b hash advance layer s = .error e t) :
      StageStep s (.refused layer e) t
  | others {s t : StageState ω H L} (h : s.staged.Same t.staged) : StageStep s .others t

/-- The layers that were applied, in their order. -/
def appliedLayers (es : List StageEvent) : List LayerBuilder :=
  es.filterMap fun
    | .applied layer => some layer
    | .refused _ _ => none
    | .others => none

/-- What a run keeps, and what it makes of the snapshot. -/
structure Staged (layers : List LayerBuilder) (staged staged' : StagedSnapshot H L) : Prop where
  owned : staged'.Owned
  viewed : staged'.views.Viewed
  entered : ∀ l ∈ layers, l.Entered
  views : staged'.views = layers.foldl SnapshotOverlay.apply staged.views
  localLayer : staged'.localLayer = layers.foldl LayerBuilder.insertLayer staged.localLayer

variable {b hash advance}

theorem staged_step {s t : StageState ω H L} {e : StageEvent} (h : StageStep b hash advance s e t)
    (hs : s.staged.Owned) (hviewed : s.staged.views.Viewed) :
    Staged (appliedLayers [e]) s.staged t.staged := by
  cases h with
  | applied hlayer happly =>
    rename_i layer
    have hall := applyLayerChecked_all b hash advance layer hs hviewed
    rw [happly] at hall
    refine ⟨hall.owned, ?_, fun l hl => ?_, hall.views, hall.localLayer⟩
    · rw [hall.views]
      exact SnapshotOverlay.viewed_entered hviewed hlayer
    · rw [List.mem_singleton.mp hl]
      exact hlayer
  | refused happly =>
    rename_i layer error
    have hall := applyLayerChecked_all b hash advance layer hs hviewed
    rw [happly] at hall
    have hsame : t.staged = s.staged := hall
    rw [hsame]
    exact ⟨hs, hviewed, fun l hl => (List.not_mem_nil hl).elim, rfl, rfl⟩
  | others hsame =>
    have hviews : t.staged.views = s.staged.views :=
      congrArg StagedOverlay.toSnapshotOverlay hsame.overlay
    refine ⟨hsame.owned, ?_, fun l hl => (List.not_mem_nil hl).elim, hviews, hsame.localLayer⟩
    rw [hviews]
    exact hviewed

/-- **A run makes of the snapshot what the applied layers make of it.** -/
theorem staged_run {s t : StageState ω H L} {es : List StageEvent}
    (h : Trace (StageStep b hash advance) s es t) (hs : s.staged.Owned)
    (hviewed : s.staged.views.Viewed) : Staged (appliedLayers es) s.staged t.staged := by
  induction h with
  | nil s => exact ⟨hs, hviewed, fun l hl => (List.not_mem_nil hl).elim, rfl, rfl⟩
  | @cons s t u e es hstep _ ih =>
    have hone := staged_step hstep hs hviewed
    have hrest := ih hone.owned hone.viewed
    have hlayers : appliedLayers (e :: es) = appliedLayers [e] ++ appliedLayers es :=
      List.filterMap_append (l := [e])
    refine ⟨hrest.owned, hrest.viewed, fun l hl => ?_, ?_, ?_⟩
    · rw [hlayers, List.mem_append] at hl
      rcases hl with hl | hl
      · exact hone.entered l hl
      · exact hrest.entered l hl
    · rw [hlayers, List.foldl_append, hrest.views, hone.views]
    · rw [hlayers, List.foldl_append, hrest.localLayer, hone.localLayer]

end Runs

/-! ## 3. Committed one by one -/

/-- Two graphs with the same facts, values as they are stored. -/
structure GraphState.StoredAlike (g g' : GraphState) : Prop where
  nodes : g.nodes = g'.nodes
  labels : g.labels = g'.labels
  relationships : g.relationships = g'.relationships
  properties : ∀ slot : PropertySlot, g.properties[slot]?.map PropertyValue.canonicalBytes =
    g'.properties[slot]?.map PropertyValue.canonicalBytes

theorem GraphState.StoredAlike.apply {g g' : GraphState} (h : g.StoredAlike g')
    (l : LayerBuilder) : (g.apply l).StoredAlike (g'.apply l.canonical) := by
  refine ⟨?_, ?_, ?_, fun slot => ?_⟩
  · show Library.patch g.nodes _ = Library.patch g'.nodes _
    rw [h.nodes]
    rfl
  · show Library.patch g.labels _ = Library.patch g'.labels _
    rw [h.labels]
    rfl
  · show Library.patch g.relationships _ = Library.patch g'.relationships _
    rw [h.relationships]
    rfl
  · have hlook : l.canonical.properties[slot]? =
        l.properties[slot]?.map PropertyDelta.canonical := ExtTreeMap.getElem?_map
    rw [GraphState.properties_apply, GraphState.properties_apply, hlook]
    cases l.properties[slot]? with
    | none => exact h.properties slot
    | some delta =>
      show delta.value.map _ = (delta.value.map PropertyValue.canonical).map _
      cases delta.value with
      | none => rfl
      | some value => exact congrArg some (canonicalBytes_canonical value).symm

/-- **Layers committed one by one leave the same facts.** -/
theorem storedAlike_foldl (layers : List LayerBuilder) :
    ∀ {g g' : GraphState}, g.StoredAlike g' → (layers.foldl GraphState.apply g).StoredAlike
      ((layers.map LayerBuilder.canonical).foldl GraphState.apply g') := by
  induction layers with
  | nil => exact fun h => h
  | cons l layers ih => exact fun h => ih (h.apply l)

/-- What a layer says of a node. -/
def nodeWord (id : NodeId) (l : LayerBuilder) : Option (Option Unit) :=
  l.nodes[id]?.map DeltaOp.change

/-- What a layer says of a relationship. -/
def relationshipWord (id : RelationshipId) (l : LayerBuilder) :
    Option (Option RelationshipRecord) :=
  l.relationships[id]?.map RelationshipDelta.change

/-- **Each fact of a graph is the word of the last of some layers that mentions it.** -/
structure GraphState.SaidLast (g base : GraphState) (layers : List LayerBuilder) : Prop where
  nodes : ∀ id : NodeId, g.nodes[id]? = latest (nodeWord id) base.nodes[id]? layers.reverse
  labels : ∀ row : NodeId × LabelId,
    g.labels[row]? = latest (labelWord row) base.labels[row]? layers.reverse
  relationships : ∀ id : RelationshipId, g.relationships[id]? =
    latest (relationshipWord id) base.relationships[id]? layers.reverse
  properties : ∀ slot : PropertySlot, g.properties[slot]? =
    latest (propertyWord slot) base.properties[slot]? layers.reverse

theorem saidLast_foldl (g : GraphState) (layers : List LayerBuilder) :
    (layers.foldl GraphState.apply g).SaidLast g layers := by
  refine ⟨fun id => ?_, labels_stack g layers, fun id => ?_, properties_stack g layers⟩
  · have h := latest_stack (nodeWord id) (fun g => g.nodes[id]?)
      (fun g l => GraphState.nodes_apply g l id) g layers.reverse
    rwa [List.reverse_reverse] at h
  · have h := latest_stack (relationshipWord id) (fun g => g.relationships[id]?)
      (fun g l => GraphState.relationships_apply g l id) g layers.reverse
    rwa [List.reverse_reverse] at h

/-- What a staged snapshot shows over its checkpoint. -/
def StagedSnapshot.shown {H L : Type} (staged : StagedSnapshot H L)
    (checkpoint : Option GraphState) : GraphState :=
  (Snapshot.mk checkpoint staged.views.toOverlay).graph

/-- The layers were committed, one by one: each is stored under rows of its own. -/
def Committed (real : RealColumn) (layers : List LayerBuilder) (committed : List StackLayer) : Prop :=
  List.Forall₂ (fun l c => c.Valid real ∧ ∃ rows, c = .stored l rows) layers committed

theorem Committed.valid {real : RealColumn} {layers : List LayerBuilder}
    {committed : List StackLayer} (h : Committed real layers committed) :
    ∀ c ∈ committed, c.Valid real := by
  induction h with
  | nil => exact fun c hc => (List.not_mem_nil hc).elim
  | cons hone _ ih =>
    intro c hc
    rcases List.mem_cons.mp hc with hc | hc
    · rw [hc]
      exact hone.1
    · exact ih c hc

theorem Committed.read {real : RealColumn} {layers : List LayerBuilder}
    {committed : List StackLayer} (h : Committed real layers committed) :
    committed.map StackLayer.read = layers.map LayerBuilder.canonical := by
  induction h with
  | nil => rfl
  | cons hone _ ih =>
    obtain ⟨_, rows, hrows⟩ := hone
    rw [List.map_cons, List.map_cons, ih, hrows]
    rfl

/-- **Over a snapshot opened on any stack and in every state its layers take it to**: the next
    layer is applied as a whole or leaves the snapshot as it is; each fact is what the last layer
    that mentions it leaves; and the store shows the same once the applied layers are committed. -/
theorem staged_layers {ω H L : Type} (b : Budget ω L) (hash : Bytes → H) (advance : H → H → H)
    {real : RealColumn} {stack : List StackLayer} (hstack : ∀ l ∈ stack, l.Valid real)
    {s t : StageState ω H L} (hopen : s.staged.Opened stack) {es : List StageEvent}
    (hrun : Trace (StageStep b hash advance) s es t) (checkpoint : Option GraphState) :
    (∀ layer, match applyLayerChecked b hash advance layer t with
      | .ok _ u => Applied hash advance layer t.staged u.staged
      | .error _ u => u.staged = t.staged) ∧
    (t.staged.shown checkpoint).SaidLast (checkpoint.getD {})
      (stack.map StackLayer.read ++ appliedLayers es) ∧
    t.staged.localLayer = (appliedLayers es).foldl LayerBuilder.insertLayer s.staged.localLayer ∧
    ∀ committed, Committed real (appliedLayers es) committed →
      ∃ s', stackSnapshot checkpoint (stack ++ committed) = .ok s' ∧
        (t.staged.shown checkpoint).StoredAlike s'.snapshot.graph := by
  obtain ⟨hviewed, hviews⟩ := SnapshotOverlay.opened hstack SnapshotOverlay.viewed_empty
    hopen.overlay
  have hstaged := staged_run hrun hopen.owned hviewed
  -- what is shown: the layers of the stack, then the applied ones
  have hshown : t.staged.shown checkpoint = (stack.map StackLayer.read ++
      appliedLayers es).foldl GraphState.apply (checkpoint.getD {}) := by
    unfold StagedSnapshot.shown
    show (checkpoint.getD {}).apply t.staged.views.toOverlay.layer = _
    rw [hstaged.views, hviews, ← List.foldl_append, SnapshotOverlay.graph_foldl (checkpoint.getD {})
      (fun l hl => ?_) IndexedOverlay.indexed_empty]
    · exact congrArg (fun g => List.foldl GraphState.apply g _) (GraphState.apply_empty _)
    · rcases List.mem_append.mp hl with hl | hl
      · obtain ⟨c, hc, heq⟩ := List.mem_map.mp hl
        rw [← heq]
        exact (hstack c hc).readable.relationships
      · exact (hstaged.entered l hl).readable.relationships
  refine ⟨fun layer => applyLayerChecked_all b hash advance layer hstaged.owned hstaged.viewed,
    ?_, hstaged.localLayer, fun committed hcommitted => ?_⟩
  · rw [hshown]
    exact saidLast_foldl _ _
  · have hvalid : ∀ l ∈ stack ++ committed, l.Valid real := by
      intro l hl
      rcases List.mem_append.mp hl with hl | hl
      · exact hstack l hl
      · exact hcommitted.valid l hl
    obtain ⟨o, hfold, _, hgraph⟩ := stack_overlay hvalid (checkpoint.getD {})
      IndexedOverlay.indexed_empty readable_empty
    rw [layer_empty, GraphState.apply_empty, List.map_append, hcommitted.read,
      List.foldl_append] at hgraph
    refine ⟨⟨checkpoint, o⟩, ?_, ?_⟩
    · unfold stackSnapshot
      rw [hfold]
      rfl
    · have hg : (IndexedSnapshot.mk checkpoint o).snapshot.graph = _ := hgraph
      rw [hg, hshown, List.foldl_append]
      exact storedAlike_foldl _ ⟨rfl, rfl, rfl, fun _ => rfl⟩

/-- A query that is cancelled where its world says so, with a lease for every reservation. -/
def cancelling : Budget Bool Unit where
  check := fun cancelled =>
    if cancelled then .error (.constraint "cancelled") cancelled else .ok () cancelled
  observed := true
  reserve := fun _ => pure (some ())
  checkedAdd a b := .ok (a + b)
  checkedMul a b := .ok (a * b)
  slotBytes _ _ := .ok 256
  overlaySlotBytes _ := .ok 256
  propertyValueBytes _ := pure 8
  layerMemoryBytes _ := pure 64

/-- One layer under that query: whether it is applied, and what it leaves. -/
def cancellingApply (layer : LayerBuilder) (s : StageState Bool Bytes Unit) :
    Bool × StageState Bool Bytes Unit :=
  match applyLayerChecked cancelling id List.append layer s with
  | .ok _ t => (true, t)
  | .error _ t => (false, t)

theorem cancellingApply_ok {layer : LayerBuilder} {s : StageState Bool Bytes Unit}
    (h : (cancellingApply layer s).1 = true) :
    applyLayerChecked cancelling id List.append layer s = .ok () (cancellingApply layer s).2 := by
  unfold cancellingApply at h ⊢
  split
  · rename_i u t hrun
    exact hrun
  · rename_i e t hrun
    rw [hrun] at h
    cases h

theorem cancellingApply_error {l : LayerBuilder} {s : StageState Bool Bytes Unit}
    (h : (cancellingApply l s).1 = false) : ∃ e,
      applyLayerChecked cancelling id List.append l s = .error e (cancellingApply l s).2 := by
  unfold cancellingApply at h ⊢
  split
  · rename_i u t hrun
    rw [hrun] at h
    cases h
  · rename_i e t hrun
    exact ⟨e, hrun⟩

/-- A property is set; the cancelled query cannot remove it; then it is set again. -/
theorem staged_layers_cancelled :
    ∃ s t : StageState Bool Bytes Unit, ∃ e,
      Trace (StageStep cancelling id List.append) s
        [.applied (oneProperty .add (some (.boolean true))), .others,
          .refused (oneProperty .remove none) e, .others,
          .applied (oneProperty .add (some (.boolean false)))] t ∧
      (t.staged.shown none).properties[((.node, 1, 1) : PropertySlot)]? =
        some (.boolean false) := by
  have hset : ∀ v, (oneProperty .add (some (.boolean v))).Entered :=
    fun v => oneProperty_entered (.inl ⟨rfl, _, rfl, trivial⟩)
  let s : StageState Bool Bytes Unit := ⟨false, { overlay := .new {}, cacheIdentity := [] }⟩
  let s₁ := (cancellingApply (oneProperty .add (some (.boolean true))) s).2
  let s₂ := { s₁ with world := true }
  let s₃ := (cancellingApply (oneProperty .remove none) s₂).2
  let s₄ := { s₃ with world := false }
  let t := (cancellingApply (oneProperty .add (some (.boolean false))) s₄).2
  have hopen : s.staged.Opened [] := by
    refine ⟨rfl, fun _ => rfl, fun l hl => ?_, fun m hm => ?_, Nat.le_refl 1⟩
    · cases hl
    · cases hm
  have hsame : ∀ {u : StageState Bool Bytes Unit} {w : Bool}, u.staged.Owned →
      u.staged.Same ({ u with world := w } : StageState Bool Bytes Unit).staged :=
    fun h => ⟨rfl, rfl, rfl, h⟩
  have hstep₁ : StageStep cancelling id List.append s
      (.applied (oneProperty .add (some (.boolean true)))) s₁ :=
    .applied (hset true) (cancellingApply_ok (by decide +kernel))
  have hone := staged_step hstep₁ hopen.owned SnapshotOverlay.viewed_empty
  have hstep₂ : StageStep cancelling id List.append s₁ .others s₂ := .others (hsame hone.owned)
  obtain ⟨e, hrefused⟩ := cancellingApply_error (s := s₂) (l := oneProperty .remove none)
    (by decide +kernel)
  have hstep₃ : StageStep cancelling id List.append s₂ (.refused (oneProperty .remove none) e) s₃ :=
    .refused hrefused
  have hthree := staged_step hstep₃ hone.owned hone.viewed
  have hstep₄ : StageStep cancelling id List.append s₃ .others s₄ := .others (hsame hthree.owned)
  have hstep₅ : StageStep cancelling id List.append s₄
      (.applied (oneProperty .add (some (.boolean false)))) t :=
    .applied (hset false) (cancellingApply_ok (by decide +kernel))
  have hrun := Trace.cons hstep₁
    (.cons hstep₂ (.cons hstep₃ (.cons hstep₄ (.cons hstep₅ (.nil t)))))
  have hstack : ∀ l ∈ ([] : List StackLayer), l.Valid exactColumn :=
    fun l hl => (List.not_mem_nil hl).elim
  refine ⟨s, t, e, hrun, ?_⟩
  rw [(staged_layers cancelling id List.append hstack hopen hrun none).2.1.properties (.node, 1, 1)]
  show (propertyWord (.node, 1, 1) (oneProperty .add (some (.boolean false)))).getD _ = _
  unfold propertyWord oneProperty
  rfl

end Lithograph.Storage
