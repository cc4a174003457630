/-
  File:      Lithograph/Storage/OwnerRead.lean
  Subject:   The properties of one owner and the labels of one node, streamed from a stack of layers
             over an optional checkpoint (`storage/snapshot_read.rs`).

  Left out: the checks for cancellation and the accounting of memory.

  * `owner_read`: the visitor is handed the facts of that owner, in the order of their keys.
-/
import Lithograph.Library.StreamMerge
import Lithograph.Storage.LayerTable
import Lithograph.Storage.OverlayViews

namespace Lithograph.Storage

open Std Library

/-! ## 1. The readers -/

namespace Snapshot

section Visitor

variable {σ ε : Type}

def visitDeltaReference (fromStorage : StorageError → ε)
    (visitor : σ → PropertyKeyId → PropertyValue → Except ε σ) (st : σ)
    (entry : PropertySlot × PropertyDelta) : Except ε σ :=
  if entry.2.op = .add then
    match entry.2.value with
    | some value => visitor st entry.1.2.2 value
    | none => .error (fromStorage (.corrupt "set property delta is missing value"))
  else .ok st

def ownerOverlayThrough (fromStorage : StorageError → ε)
    (visitor : σ → PropertyKeyId → PropertyValue → Except ε σ) :
    PropertyKeyId → List (PropertySlot × PropertyDelta) → σ →
      Except ε (Bool × List (PropertySlot × PropertyDelta) × σ) :=
  visitThrough (fun entry => entry.1.2.2) (visitDeltaReference fromStorage visitor)

/-- `visit_owner_base_properties`: what is left of the overlay, too. -/
def visitOwnerBaseProperties (fromStorage : StorageError → ε)
    (visitor : σ → PropertyKeyId → PropertyValue → Except ε σ) (checkpoint : GraphState)
    (kind : OwnerKind) (owner : Int) (overlay : List (PropertySlot × PropertyDelta)) (st : σ) :
    Except ε (List (PropertySlot × PropertyDelta) × σ) :=
  visitRows (ownerOverlayThrough fromStorage visitor)
    (fun row : PropertySlot × PropertyValue => row.1.2.2)
    (fun st row => visitor st row.1.2.2 row.2)
    (checkpoint.properties.toList.filter fun e => e.1.1 = kind ∧ e.1.2.1 = owner) overlay st

def visitOwnerPropertiesChecked (s : Snapshot) (fromStorage : StorageError → ε)
    (visitor : σ → PropertyKeyId → PropertyValue → Except ε σ) (kind : OwnerKind) (owner : Int)
    (st : σ) : Except ε σ := do
  let overlay := keyRange s.overlay.properties (kind, owner, 0) (kind, owner, i64Max)
  let (overlay, st) ← match s.checkpoint with
    | some checkpoint =>
      visitOwnerBaseProperties fromStorage visitor checkpoint kind owner overlay st
    | none => .ok (overlay, st)
  overlay.foldlM (visitDeltaReference fromStorage visitor) st

/-- What both loops over the label changes do with one. -/
def visitLabelOp (visitor : σ → LabelId → Except ε σ) (st : σ)
    (entry : (NodeId × LabelId) × DeltaOp) : Except ε σ :=
  if entry.2 = .add then visitor st entry.1.2 else .ok st

def labelOverlayThrough (visitor : σ → LabelId → Except ε σ) :
    LabelId → List ((NodeId × LabelId) × DeltaOp) → σ →
      Except ε (Bool × List ((NodeId × LabelId) × DeltaOp) × σ) :=
  visitThrough (fun entry => entry.1.2) (visitLabelOp visitor)

def visitBaseNodeLabels (visitor : σ → LabelId → Except ε σ) (checkpoint : GraphState)
    (node : NodeId) (overlay : List ((NodeId × LabelId) × DeltaOp)) (st : σ) :
    Except ε (List ((NodeId × LabelId) × DeltaOp) × σ) :=
  visitRows (labelOverlayThrough visitor) (fun row : (NodeId × LabelId) × Unit => row.1.2)
    (fun st row => visitor st row.1.2)
    (checkpoint.labels.toList.filter fun e => e.1.1 = node) overlay st

def visitNodeLabelsChecked (s : Snapshot) (visitor : σ → LabelId → Except ε σ) (node : NodeId)
    (st : σ) : Except ε σ := do
  let overlay := keyRange s.overlay.labels (node, 0) (node, i64Max)
  let (overlay, st) ← match s.checkpoint with
    | some checkpoint => visitBaseNodeLabels visitor checkpoint node overlay st
    | none => .ok (overlay, st)
  overlay.foldlM (visitLabelOp visitor) st

end Visitor

end Snapshot

/-! ## 2. Stacks of layers -/

/-- A layer of a stack: one that is stored, by its rows, or one that is staged. -/
inductive StackLayer where
  | stored (l : LayerBuilder) (rows : LayerRows)
  | staged (l : LayerBuilder)

namespace StackLayer

/-- The layer as it is read: a stored one comes back in canonical form. -/
def read : StackLayer → LayerBuilder
  | .stored l _ => l.canonical
  | .staged l => l

/-- A stored layer has the rows that were written for it. -/
def Valid (real : RealColumn) : StackLayer → Prop
  | .stored l rows => l.Built ∧ LayerRows.ofLayer real l = .ok rows
  | .staged l => l.Entered

/-- `apply_persisted_layer_observed`, `apply_layer_observed`. -/
def onto (o : IndexedOverlay) : StackLayer → StorageResult IndexedOverlay
  | .stored _ rows => o.applyRows rows
  | .staged l => .ok (o.apply l)

end StackLayer

/-- A snapshot of a stack of layers, oldest first, over a checkpoint. -/
def stackSnapshot (checkpoint : Option GraphState) (stack : List StackLayer) :
    StorageResult IndexedSnapshot := do
  let overlay ← stack.foldlM StackLayer.onto {}
  pure { checkpoint, overlay }

/-- What the readers of an owner need of a layer: identifiers, and values where one is set. -/
structure LayerBuilder.Readable (l : LayerBuilder) : Prop where
  labels : ∀ (row : NodeId × LabelId) op, l.labels[row]? = some op → IsId row.2
  relationships : ∀ (id : RelationshipId) delta, l.relationships[id]? = some delta →
    delta.record.id = id
  keys : ∀ (slot : PropertySlot) delta, l.properties[slot]? = some delta → IsId slot.2.2
  values : ∀ (slot : PropertySlot) delta, l.properties[slot]? = some delta →
    (delta.op = .add ↔ delta.value.isSome)

variable {l : LayerBuilder}

theorem LayerBuilder.Entered.readable (h : l.Entered) : l.Readable := by
  refine ⟨fun row op hop => (h.labels row op hop).2,
    fun id delta hdelta => (h.relationships id delta hdelta).1,
    fun slot delta hdelta => (h.properties slot delta hdelta).2.1, fun slot delta hdelta => ?_⟩
  rcases (h.properties slot delta hdelta).2.2 with ⟨hop, v, hv, _⟩ | ⟨hop, hv⟩
  · simp [hop, hv]
  · simp [hop, hv]

theorem LayerBuilder.Readable.canonical (h : l.Readable) : l.canonical.Readable := by
  have hback : ∀ (slot : PropertySlot) delta, l.canonical.properties[slot]? = some delta →
      ∃ d, l.properties[slot]? = some d ∧ delta = d.canonical := by
    intro slot delta hdelta
    have hlook : l.canonical.properties[slot]? =
        l.properties[slot]?.map PropertyDelta.canonical := ExtTreeMap.getElem?_map
    rw [hlook, Option.map_eq_some_iff] at hdelta
    obtain ⟨d, hd, heq⟩ := hdelta
    exact ⟨d, hd, heq.symm⟩
  refine ⟨h.labels, h.relationships, fun slot delta hdelta => ?_, fun slot delta hdelta => ?_⟩
  · obtain ⟨d, hd, _⟩ := hback slot delta hdelta
    exact h.keys slot d hd
  · obtain ⟨d, hd, heq⟩ := hback slot delta hdelta
    rw [heq]
    show d.op = .add ↔ (d.value.map PropertyValue.canonical).isSome = true
    rw [Option.isSome_map]
    exact h.values slot d hd

theorem StackLayer.Valid.readable {real : RealColumn} {l : StackLayer} (h : l.Valid real) :
    l.read.Readable := by
  cases l with
  | stored l rows => exact (h.1.toEntered.readable).canonical
  | staged l => exact LayerBuilder.Entered.readable h

theorem readable_apply {o : Overlay} (ho : o.layer.Readable)
    (hl : l.Readable) : (o.apply l).layer.Readable := by
  refine ⟨fun row op hop => ?_, fun id delta hdelta => ?_, fun slot delta hdelta => ?_,
    fun slot delta hdelta => ?_⟩
  · have hlook : (insertEntries o.labels l.labels)[row]? = some op := hop
    rcases mem_insertEntries hlook with h | h
    · exact hl.labels row op h
    · exact ho.labels row op h
  · have hlook : (insertEntries o.relationships l.relationships)[id]? = some delta := hdelta
    rcases mem_insertEntries hlook with h | h
    · exact hl.relationships id delta h
    · exact ho.relationships id delta h
  · have hlook : (insertEntries o.properties l.properties)[slot]? = some delta := hdelta
    rcases mem_insertEntries hlook with h | h
    · exact hl.keys slot delta h
    · exact ho.keys slot delta h
  · have hlook : (insertEntries o.properties l.properties)[slot]? = some delta := hdelta
    rcases mem_insertEntries hlook with h | h
    · exact hl.values slot delta h
    · exact ho.values slot delta h

theorem readable_empty : ({} : Overlay).layer.Readable := by
  constructor
  · intro row op h
    simp [Overlay.layer] at h
  · intro id delta h
    simp [Overlay.layer] at h
  · intro slot delta h
    simp [Overlay.layer] at h
  · intro slot delta h
    simp [Overlay.layer] at h

theorem layer_empty : ({} : Overlay).layer = {} := rfl

/-- **The overlay of a stack**: its layers, one after the other. -/
theorem stack_overlay {real : RealColumn} {stack : List StackLayer}
    (hstack : ∀ l ∈ stack, l.Valid real) (g : GraphState) :
    ∀ {o : IndexedOverlay}, o.Indexed → o.toOverlay.layer.Readable →
      ∃ o', stack.foldlM StackLayer.onto o = .ok o' ∧ o'.toOverlay.layer.Readable ∧
        g.apply o'.toOverlay.layer =
          (stack.map StackLayer.read).foldl GraphState.apply (g.apply o.toOverlay.layer) := by
  induction stack with
  | nil => exact fun _ hreadable => ⟨_, rfl, hreadable, rfl⟩
  | cons l stack ih =>
    intro o hindexed hreadable
    have hl := hstack l (.head _)
    have hread := hl.readable
    have honto : StackLayer.onto o l = .ok (o.apply l.read) := by
      cases l with
      | stored l rows => exact IndexedOverlay.applyRows_persisted hl.1 hl.2 o
      | staged l => rfl
    obtain ⟨hindexed', htables⟩ := IndexedOverlay.applied o hindexed hread.relationships
    have hreadable' : (o.apply l.read).toOverlay.layer.Readable := by
      rw [htables]
      exact readable_apply hreadable hread
    obtain ⟨o', hfold, hreadable'', hgraph⟩ :=
      ih (fun l hl => hstack l (.tail _ hl)) hindexed' hreadable'
    refine ⟨o', ?_, hreadable'', ?_⟩
    · rw [List.foldlM_cons, honto]
      exact hfold
    · rw [hgraph, htables, GraphState.apply_overlay]
      rfl

/-! ## 3. The latest layer that touches a fact -/

/-- Of layers, newest first: the word of the first that has one, else what is below. -/
def latest {V : Type} (word : LayerBuilder → Option (Option V)) (below : Option V) :
    List LayerBuilder → Option V
  | [] => below
  | l :: older => (word l).getD (latest word below older)

/-- What a layer says of a property: the value it sets, or that it is removed. -/
def propertyWord (slot : PropertySlot) (l : LayerBuilder) : Option (Option PropertyValue) :=
  l.properties[slot]?.map PropertyDelta.value

/-- What a layer says of a label. -/
def labelWord (row : NodeId × LabelId) (l : LayerBuilder) : Option (Option Unit) :=
  l.labels[row]?.map DeltaOp.change

theorem latest_stack {V : Type} (word : LayerBuilder → Option (Option V))
    (fact : GraphState → Option V)
    (hword : ∀ (g : GraphState) l, fact (g.apply l) = (word l).getD (fact g)) (g : GraphState) :
    ∀ layers : List LayerBuilder,
      fact (layers.reverse.foldl GraphState.apply g) = latest word (fact g) layers
  | [] => rfl
  | l :: older => by
      rw [List.reverse_cons, List.foldl_append]
      show fact (GraphState.apply _ l) = _
      rw [hword, latest_stack word fact hword g older]
      rfl

/-- **A property has the value of the latest layer that touches it.** -/
theorem properties_stack (g : GraphState) (layers : List LayerBuilder) (slot : PropertySlot) :
    (layers.foldl GraphState.apply g).properties[slot]? =
      latest (propertyWord slot) g.properties[slot]? layers.reverse := by
  have h := latest_stack (propertyWord slot) (fun g => g.properties[slot]?)
    (fun g l => GraphState.properties_apply g l slot) g layers.reverse
  rwa [List.reverse_reverse] at h

/-- **So has a label.** -/
theorem labels_stack (g : GraphState) (layers : List LayerBuilder) (row : NodeId × LabelId) :
    (layers.foldl GraphState.apply g).labels[row]? =
      latest (labelWord row) g.labels[row]? layers.reverse := by
  have h := latest_stack (labelWord row) (fun g => g.labels[row]?)
    (fun g l => GraphState.labels_apply g l row) g layers.reverse
  rwa [List.reverse_reverse] at h

/-! ## 4. What the visitor is handed -/

namespace GraphState

/-- The properties of one owner, by key. -/
def ownerProperties (g : GraphState) (kind : OwnerKind) (owner : Int) :
    List (PropertyKeyId × PropertyValue) :=
  (g.properties.toList.filter fun e => e.1.1 = kind ∧ e.1.2.1 = owner).map fun e => (e.1.2.2, e.2)

/-- The labels of one node. -/
def nodeLabels (g : GraphState) (node : NodeId) : List (LabelId × Unit) :=
  (g.labels.toList.filter fun e => e.1.1 = node).map fun e => (e.1.2, e.2)

end GraphState

variable {α : Type}

/-- The keys of one group of rows, told apart by their last part and in the order of it. -/
structure Group {K Q : Type} [Ord K] [Ord Q] (mine : K → Prop) (last : K → Q) (slot : Q → K) :
    Prop where
  key : ∀ k q, mine k ∧ last k = q ↔ k = slot q
  order : ∀ q q', compare (slot q) (slot q') = compare q q'

section Group

variable {K Q V D : Type} [Ord K] [Ord Q] {mine : K → Prop} [DecidablePred mine] {last : K → Q}
  {slot : Q → K}

theorem Group.mem (hg : Group mine last slot) {rows : List (K × α)} {q : Q} {a : α} :
    (q, a) ∈ (rows.filter fun e => mine e.1).map (fun e => (last e.1, e.2)) ↔
      (slot q, a) ∈ rows := by
  rw [List.mem_map]
  refine ⟨fun hin => ?_, fun hrow => ?_⟩
  · obtain ⟨e, hin, heq⟩ := hin
    obtain ⟨hrow, hmine⟩ := List.mem_filter.mp hin
    cases heq
    rw [← (hg.key e.1 _).mp ⟨of_decide_eq_true hmine, rfl⟩]
    exact hrow
  · obtain ⟨hmine, hlast⟩ := (hg.key _ q).mpr rfl
    exact ⟨_, List.mem_filter.mpr ⟨hrow, decide_eq_true hmine⟩, by rw [hlast]⟩

theorem Group.sorted (hg : Group mine last slot) {rows : List (K × α)} (h : rows.Pairwise KeyLt) :
    ((rows.filter fun e => mine e.1).map fun e => (last e.1, e.2)).Pairwise KeyLt := by
  rw [List.pairwise_map]
  refine (h.filter _).imp_of_mem fun {a b} ha hb hab => ?_
  unfold KeyLt at hab ⊢
  rw [(hg.key a.1 _).mp ⟨of_decide_eq_true (List.mem_filter.mp ha).2, rfl⟩,
    (hg.key b.1 _).mp ⟨of_decide_eq_true (List.mem_filter.mp hb).2, rfl⟩, hg.order] at hab
  exact hab

/-- **The merge of the rows of a group with its changes.** -/
theorem Group.visited [TransOrd K] [LawfulEqOrd K] [TransOrd Q] [LawfulEqOrd Q] {σ ε : Type}
    (hg : Group mine last slot) {base shown : ExtTreeMap K V} {overlay : ExtTreeMap K D}
    {change : D → Option V} (hshown : ∀ k : K, shown[k]? = (overlay[k]?.map change).getD base[k]?)
    {visit : σ → Q × V → Except ε σ} {visitEntry : σ → K × D → Except ε σ}
    (hentry : ∀ e ∈ overlay.toList.filter fun e => mine e.1, ∀ st,
      visitEntry st e = (emit (last e.1, change e.2)).foldlM visit st) (st : σ) :
    (visitRows (visitThrough (fun e => last e.1) visitEntry) (fun row => last row.1)
      (fun st row => visit st (last row.1, row.2)) (base.toList.filter fun e => mine e.1)
      (overlay.toList.filter fun e => mine e.1) st >>= fun p => p.1.foldlM visitEntry p.2) =
    ((shown.toList.filter fun e => mine e.1).map fun e => (last e.1, e.2)).foldlM visit st := by
  refine (visitRows_eq (fun row => last row.1) Prod.snd (fun _ _ => rfl) hentry st).trans ?_
  refine congrArg (List.foldlM _ st) ?_
  have hchanges : ((overlay.toList.filter fun e => mine e.1).map fun e => (last e.1, change e.2)) =
      ((overlay.toList.filter fun e => mine e.1).map fun e => (last e.1, e.2)).map
        fun e => (e.1, change e.2) := by
    rw [List.map_map]
    rfl
  rw [hchanges]
  refine mergeChanges_lookup (hg.sorted (sorted_toList _)) ?_ (hg.sorted (sorted_toList _))
    (fun q => base[slot q]?) (fun q => overlay[slot q]?.map change)
    (fun q v => ?_) (fun q c => ?_) (fun q v => ?_)
  · rw [List.pairwise_map]
    exact hg.sorted (sorted_toList _)
  · rw [hg.mem, ExtTreeMap.mem_toList_iff_getElem?_eq_some]
  · rw [List.mem_map, Option.map_eq_some_iff]
    refine ⟨fun hin => ?_, fun hin => ?_⟩
    · obtain ⟨⟨q, d⟩, hin, heq⟩ := hin
      cases heq
      exact ⟨d, lookup_of_mem (hg.mem.mp hin), rfl⟩
    · obtain ⟨d, hd, heq⟩ := hin
      exact ⟨(q, d), hg.mem.mpr (mem_of_lookup hd), by rw [heq]⟩
  · rw [hg.mem, ExtTreeMap.mem_toList_iff_getElem?_eq_some, hshown]

end Group

theorem ownerGroup (kind : OwnerKind) (owner : Int) :
    Group (fun k : PropertySlot => k.1 = kind ∧ k.2.1 = owner) (fun k => k.2.2)
      fun q => (kind, owner, q) := by
  refine ⟨fun ⟨k, o, q⟩ q' => ?_, fun q q' => ?_⟩
  · simp only [Prod.mk.injEq, and_assoc]
  · rw [compare_pair, compare_pair, ReflOrd.compare_self, ReflOrd.compare_self]
    rfl

theorem nodeGroup (node : NodeId) :
    Group (fun k : NodeId × LabelId => k.1 = node) Prod.snd (Prod.mk node) := by
  refine ⟨fun ⟨n, q⟩ q' => ?_, fun q q' => ?_⟩
  · simp only [Prod.mk.injEq]
  · rw [compare_pair, ReflOrd.compare_self]
    rfl

namespace Snapshot

variable {σ ε : Type}

theorem visitOwnerPropertiesChecked_eq {s : Snapshot} (h : s.overlay.layer.Readable)
    (fromStorage : StorageError → ε) (visitor : σ → PropertyKeyId → PropertyValue → Except ε σ)
    (kind : OwnerKind) (owner : Int) (st : σ) :
    s.visitOwnerPropertiesChecked fromStorage visitor kind owner st =
      (s.graph.ownerProperties kind owner).foldlM (fun st e => visitor st e.1 e.2) st := by
  have hrange : keyRange s.overlay.properties (kind, owner, 0) (kind, owner, i64Max) =
      s.overlay.properties.toList.filter fun e => e.1.1 = kind ∧ e.1.2.1 = owner := by
    rw [keyRange_eq_filter]
    refine List.filter_congr fun e he => ?_
    have hid := h.keys e.1 e.2 (lookup_of_mem he)
    rw [show e.1 = (e.1.1, e.1.2.1, e.1.2.2) from rfl]
    simp only [between_pair, hid.between, and_true]
  -- each change hands out what it leaves
  have hentry : ∀ e ∈ s.overlay.properties.toList.filter
      (fun e => e.1.1 = kind ∧ e.1.2.1 = owner), ∀ st,
      visitDeltaReference fromStorage visitor st e =
        (emit (e.1.2.2, e.2.value)).foldlM (fun st e => visitor st e.1 e.2) st := by
    intro e he st
    have hvalue := h.values e.1 e.2 (lookup_of_mem (List.mem_of_mem_filter he))
    unfold visitDeltaReference
    cases hv : e.2.value with
    | some v =>
      have hop : e.2.op = .add := hvalue.mpr (by rw [hv]; rfl)
      rw [if_pos hop]
      simp [emit]
    | none =>
      have hop : e.2.op ≠ .add := fun hop => by
        have hsome := hvalue.mp hop
        rw [hv] at hsome
        cases hsome
      rw [if_neg hop]
      rfl
  refine Eq.trans ?_ ((ownerGroup kind owner).visited
    (GraphState.properties_apply s.base s.overlay.layer) hentry st)
  unfold visitOwnerPropertiesChecked base
  rw [hrange]
  cases s.checkpoint with
  | none => rfl
  | some checkpoint => rfl

theorem visitNodeLabelsChecked_eq {s : Snapshot} (h : s.overlay.layer.Readable)
    (visitor : σ → LabelId → Except ε σ) (node : NodeId) (st : σ) :
    s.visitNodeLabelsChecked visitor node st =
      (s.graph.nodeLabels node).foldlM (fun st e => visitor st e.1) st := by
  have hrange : keyRange s.overlay.labels (node, 0) (node, i64Max) =
      s.overlay.labels.toList.filter fun e => e.1.1 = node := by
    rw [keyRange_eq_filter]
    refine List.filter_congr fun e he => ?_
    have hid := h.labels e.1 e.2 (lookup_of_mem he)
    rw [show e.1 = (e.1.1, e.1.2) from rfl]
    simp only [between_pair, hid.between, and_true]
  have hentry : ∀ e ∈ s.overlay.labels.toList.filter (fun e => e.1.1 = node), ∀ st,
      visitLabelOp visitor st e =
        (emit (e.1.2, e.2.change)).foldlM (fun st (e : LabelId × Unit) => visitor st e.1) st := by
    intro e _ st
    unfold visitLabelOp
    cases hop : e.2 with
    | add => simp [emit, DeltaOp.change]
    | remove => rfl
  refine Eq.trans ?_ ((nodeGroup node).visited
    (GraphState.labels_apply s.base s.overlay.layer) hentry st)
  unfold visitNodeLabelsChecked base
  rw [hrange]
  cases s.checkpoint with
  | none => rfl
  | some checkpoint => rfl

end Snapshot

/-- **The reader of an owner hands out what all layers, applied in order, leave of that owner**: in
    the order of the keys, each with the word of the latest layer that touches it. -/
theorem owner_read {real : RealColumn} {stack : List StackLayer}
    (hstack : ∀ l ∈ stack, l.Valid real) (checkpoint : Option GraphState) :
    ∃ s, stackSnapshot checkpoint stack = .ok s ∧
      (∀ (kind : OwnerKind) (owner : Int), ∃ facts : List (PropertyKeyId × PropertyValue),
        facts = ((stack.map StackLayer.read).foldl GraphState.apply
          (checkpoint.getD {})).ownerProperties kind owner ∧
        facts.Pairwise KeyLt ∧
        (∀ key value, (key, value) ∈ facts ↔ latest (propertyWord (kind, owner, key))
          (checkpoint.getD {}).properties[(kind, owner, key)]?
          (stack.map StackLayer.read).reverse = some value) ∧
        ∀ {σ ε : Type} (fromStorage : StorageError → ε)
          (visitor : σ → PropertyKeyId → PropertyValue → Except ε σ) (st : σ),
          s.snapshot.visitOwnerPropertiesChecked fromStorage visitor kind owner st =
            facts.foldlM (fun st e => visitor st e.1 e.2) st) ∧
      ∀ node : NodeId, ∃ facts : List (LabelId × Unit),
        facts = ((stack.map StackLayer.read).foldl GraphState.apply
          (checkpoint.getD {})).nodeLabels node ∧
        facts.Pairwise KeyLt ∧
        (∀ label, (label, ()) ∈ facts ↔ latest (labelWord (node, label))
          (checkpoint.getD {}).labels[(node, label)]?
          (stack.map StackLayer.read).reverse = some ()) ∧
        ∀ {σ ε : Type} (visitor : σ → LabelId → Except ε σ) (st : σ),
          s.snapshot.visitNodeLabelsChecked visitor node st =
            facts.foldlM (fun st e => visitor st e.1) st := by
  obtain ⟨o, hfold, hreadable, hgraph⟩ := stack_overlay hstack (checkpoint.getD {})
    IndexedOverlay.indexed_empty readable_empty
  have hshown : (IndexedSnapshot.mk checkpoint o).snapshot.graph =
      (stack.map StackLayer.read).foldl GraphState.apply (checkpoint.getD {}) := hgraph
  refine ⟨⟨checkpoint, o⟩, ?_, fun kind owner => ?_, fun node => ?_⟩
  · unfold stackSnapshot
    rw [hfold]
    rfl
  · refine ⟨_, rfl, (ownerGroup kind owner).sorted (sorted_toList _), fun key value => ?_,
      fun fromStorage visitor st => ?_⟩
    · rw [← properties_stack, ← ExtTreeMap.mem_toList_iff_getElem?_eq_some]
      exact (ownerGroup kind owner).mem
    · rw [Snapshot.visitOwnerPropertiesChecked_eq hreadable, hshown]
  · refine ⟨_, rfl, (nodeGroup node).sorted (sorted_toList _), fun label => ?_,
      fun visitor st => ?_⟩
    · rw [← labels_stack, ← ExtTreeMap.mem_toList_iff_getElem?_eq_some]
      exact (nodeGroup node).mem
    · rw [Snapshot.visitNodeLabelsChecked_eq hreadable, hshown]

/-- A layer with one property of one node. -/
def oneProperty (op : DeltaOp) (value : Option PropertyValue) : LayerBuilder where
  properties := (∅ : ExtTreeMap PropertySlot PropertyDelta).insert (.node, 1, 1) ⟨op, value⟩

theorem oneProperty_entered {op : DeltaOp} {value : Option PropertyValue}
    (h : (PropertyDelta.mk op value).Built) : (oneProperty op value).Entered := by
  constructor
  · intro id op' hop
    simp [oneProperty] at hop
  · intro row op' hop
    simp [oneProperty] at hop
  · intro id delta hdelta
    simp [oneProperty] at hdelta
  · intro slot delta hdelta
    unfold oneProperty at hdelta
    rw [lookup_insert] at hdelta
    split at hdelta
    · rename_i heq
      rw [← Option.some.inj hdelta, heq]
      have hone : IsId 1 := by
        unfold IsId
        omega
      exact ⟨hone, hone, h⟩
    · simp at hdelta

/-- A property is set, removed and set again over an empty checkpoint. -/
theorem owner_read_reset :
    let stack : List StackLayer := [.staged (oneProperty .add (some (.boolean true))),
      .staged (oneProperty .remove none), .staged (oneProperty .add (some (.boolean false)))]
    ∃ s, stackSnapshot (some {}) stack = .ok s ∧
      s.snapshot.visitOwnerPropertiesChecked id (fun st key value =>
        .ok (st ++ [(key, value matches .boolean false)])) .node 1 [] = .ok [(1, true)] := by
  intro stack
  have hstack : ∀ l ∈ stack, l.Valid exactColumn := by
    intro l hl
    simp only [stack, List.mem_cons, List.not_mem_nil, or_false] at hl
    rcases hl with hl | hl | hl
    · rw [hl]
      exact oneProperty_entered (.inl ⟨rfl, _, rfl, trivial⟩)
    · rw [hl]
      exact oneProperty_entered (.inr ⟨rfl, rfl⟩)
    · rw [hl]
      exact oneProperty_entered (.inl ⟨rfl, _, rfl, trivial⟩)
  obtain ⟨s, hs, hproperties, _⟩ := owner_read hstack (some {})
  obtain ⟨facts, hfacts, _, _, hvisit⟩ := hproperties .node 1
  refine ⟨s, hs, ?_⟩
  rw [hvisit, hfacts]
  decide +kernel

end Lithograph.Storage
