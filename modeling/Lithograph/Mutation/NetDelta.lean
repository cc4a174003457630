/-
  File:      Lithograph/Mutation/NetDelta.lean
  Subject:   The net delta of a statement is the state it staged.

  * `netDelta_is_staged`: the layer shows what the statement was reading and holds no idle entry,
    and the counters count its entries.
-/
import Lithograph.Mutation.Context

namespace Lithograph.Mutation

open Std Library Storage Query

/-! ## 1. Counting a layer -/

def nodeEntries (l : LayerBuilder) (op : DeltaOp) : Nat := l.nodes.toList.countP (·.2 == op)

def labelEntries (l : LayerBuilder) (op : DeltaOp) : Nat := l.labels.toList.countP (·.2 == op)

def relationshipEntries (l : LayerBuilder) (op : DeltaOp) : Nat :=
  l.relationships.toList.countP (·.2.op == op)

/-- Properties the base does not have. -/
def addedProperties (base : Snapshot) (l : LayerBuilder) : Nat :=
  l.properties.toList.countP fun e => e.2.op == .add && (base.property e.1).isNone

/-- Properties the base has with another value. -/
def changedProperties (base : Snapshot) (l : LayerBuilder) : Nat :=
  l.properties.toList.countP fun e => e.2.op == .add && (base.property e.1).isSome

def removedProperties (l : LayerBuilder) : Nat :=
  l.properties.toList.countP (·.2.op == .remove)

/-- **The counters count the layer**; a changed property is one set and one removed. A counter stops
    at the largest `u64`. -/
structure CountsOf (base : Snapshot) (l : LayerBuilder) (c : MutationCounters) : Prop where
  nodesCreated : c.nodesCreated = min (nodeEntries l .add) u64Max
  nodesDeleted : c.nodesDeleted = min (nodeEntries l .remove) u64Max
  labelsAdded : c.labelsAdded = min (labelEntries l .add) u64Max
  labelsRemoved : c.labelsRemoved = min (labelEntries l .remove) u64Max
  relationshipsCreated : c.relationshipsCreated = min (relationshipEntries l .add) u64Max
  relationshipsDeleted : c.relationshipsDeleted = min (relationshipEntries l .remove) u64Max
  propertiesSet : c.propertiesSet = min (addedProperties base l + changedProperties base l) u64Max
  propertiesRemoved : c.propertiesRemoved =
    min (removedProperties l + changedProperties base l) u64Max

/-- **Every entry of the layer is a change**: the fact it names is not what it was. -/
structure OnlyChanges (base staged : Snapshot) (l : LayerBuilder) : Prop where
  nodes : ∀ (id : NodeId) op, l.nodes[id]? = some op → base.nodeExists id ≠ staged.nodeExists id
  labels : ∀ (r : NodeId × LabelId) op, l.labels[r]? = some op →
    base.hasLabel r.1 r.2 ≠ staged.hasLabel r.1 r.2
  relationships : ∀ (id : RelationshipId) d, l.relationships[id]? = some d →
    base.relationship id ≠ staged.relationship id
  properties : ∀ (k : PropertySlot) d, l.properties[k]? = some d →
    ¬ SameProperty (base.property k) (staged.property k)

variable {l : LayerBuilder} {κ : Type}

/-! ## 2. The layer of a coupled statement -/

section Coupled

variable {ctx : MutationContext}

theorem coupled_keyed (hI : Coupled ctx) (id : RelationshipId)
    (slot : Slot (Option RelationshipRecord)) (hs : ctx.delta.relationships[id]? = some slot) :
    DeltaBuilder.Keyed id slot := by
  obtain ⟨hb, hc⟩ := tracks_some hI.relationships hs
  refine ⟨fun r hr => hI.base.keyed id r ?_, fun r hr => hI.staged.keyed id r ?_⟩
  · rw [← hb, hr]
  · rw [← hc, hr]

theorem propertyStatesEqual_total {a b : Option PropertyValue}
    (ha : ∀ v, a = some v → ∃ bytes, v.canonicalBytes = .ok bytes)
    (hb : ∀ v, b = some v → ∃ bytes, v.canonicalBytes = .ok bytes) :
    ∃ same, propertyStatesEqual a b = .ok same := by
  cases a with
  | none => cases b <;> exact ⟨_, rfl⟩
  | some a =>
    cases b with
    | none => exact ⟨_, rfl⟩
    | some b =>
      obtain ⟨x, hx⟩ := ha a rfl
      obtain ⟨y, hy⟩ := hb b rfl
      exact ⟨x == y, bind_eq_ok.mpr ⟨x, hx, bind_eq_ok.mpr ⟨y, hy, rfl⟩⟩⟩

theorem coupled_comparable (hI : Coupled ctx) {k : PropertySlot}
    {slot : Slot (Option PropertyValue)} (hs : ctx.delta.properties[k]? = some slot) :
    ∃ same, propertyStatesEqual slot.before slot.current = .ok same := by
  obtain ⟨hb, hc⟩ := tracks_some hI.properties hs
  refine propertyStatesEqual_total (fun v hv => hI.base.encodable k v ?_)
    fun v hv => hI.staged.encodable k v ?_
  · rw [← hb, hv]
  · rw [← hc, hv]

theorem coupled_layer_total (hI : Coupled ctx) : ∃ l, ctx.delta.layer = .ok l := by
  have h₁ : ∃ l, ctx.delta.applyNodeSlots {} = .ok l := by
    refine foldlM_total fun l id slot hs => ?_
    have hid := hI.nodeIds id slot hs
    unfold DeltaBuilder.applyNodeSlot
    split
    · exact ⟨_, rfl⟩
    · split
      · exact ⟨_, LayerBuilder.addNode_ok.mpr ⟨hid, rfl⟩⟩
      · exact ⟨_, LayerBuilder.removeNode_ok.mpr ⟨hid, rfl⟩⟩
  obtain ⟨l₁, h₁⟩ := h₁
  have h₂ : ∃ l, ctx.delta.applyLabelSlots l₁ = .ok l := by
    refine foldlM_total fun l r slot hs => ?_
    have hid := hI.labelIds r slot hs
    unfold DeltaBuilder.applyLabelSlot
    split
    · exact ⟨_, rfl⟩
    · split
      · exact ⟨_, LayerBuilder.addLabel_ok.mpr ⟨hid, rfl⟩⟩
      · exact ⟨_, LayerBuilder.removeLabel_ok.mpr ⟨hid, rfl⟩⟩
  obtain ⟨l₂, h₂⟩ := h₂
  have h₃ : ∃ l, ctx.delta.applyRelationshipSlots l₂ = .ok l := by
    refine foldlM_total fun l id slot hs => ?_
    obtain ⟨hb, hc⟩ := tracks_some hI.relationships hs
    unfold DeltaBuilder.applyRelationshipSlot
    split
    · exact ⟨_, rfl⟩
    · cases hcur : slot.current with
      | some r =>
        exact ⟨_, LayerBuilder.addRelationship_ok.mpr
          ⟨hI.staged.positive id r (by rw [← hc, hcur]), rfl⟩⟩
      | none =>
        cases hbef : slot.before with
        | some r =>
          exact ⟨_, LayerBuilder.removeRelationship_ok.mpr
            ⟨hI.base.positive id r (by rw [← hb, hbef]), rfl⟩⟩
        | none => exact ⟨_, rfl⟩
  obtain ⟨l₃, h₃⟩ := h₃
  have h₄ : ∃ l, ctx.delta.applyPropertySlots l₃ = .ok l := by
    refine foldlM_total fun l k slot hs => ?_
    have hid := hI.propertyIds k slot hs
    obtain ⟨same, hsame⟩ := coupled_comparable hI hs
    unfold DeltaBuilder.applyPropertySlot
    rw [hsame]
    cases same with
    | true => exact ⟨_, rfl⟩
    | false =>
      cases slot.current with
      | some v => exact ⟨_, LayerBuilder.setProperty_ok.mpr ⟨hid, rfl⟩⟩
      | none => exact ⟨_, LayerBuilder.removeProperty_ok.mpr ⟨hid, rfl⟩⟩
  obtain ⟨l₄, h₄⟩ := h₄
  refine ⟨l₄, ofStorage_ok.mpr ?_⟩
  exact bind_eq_ok.mpr ⟨l₁, h₁, bind_eq_ok.mpr ⟨l₂, h₂, bind_eq_ok.mpr ⟨l₃, h₃, h₄⟩⟩⟩

theorem coupled_counters_total (hI : Coupled ctx) : ∃ c, ctx.delta.counters = .ok c := by
  have h₁ : ∃ c, ctx.delta.nodes.foldlM DeltaBuilder.countNodeSlot {} = .ok c := by
    refine foldlM_total fun c id slot _ => ?_
    unfold DeltaBuilder.countNodeSlot
    split
    · exact ⟨_, rfl⟩
    · split <;> exact ⟨_, rfl⟩
  obtain ⟨c₁, h₁⟩ := h₁
  have h₂ : ∃ c, ctx.delta.labels.foldlM DeltaBuilder.countLabelSlot c₁ = .ok c := by
    refine foldlM_total fun c r slot _ => ?_
    unfold DeltaBuilder.countLabelSlot
    split
    · exact ⟨_, rfl⟩
    · split <;> exact ⟨_, rfl⟩
  obtain ⟨c₂, h₂⟩ := h₂
  have h₃ : ∃ c, ctx.delta.relationships.foldlM DeltaBuilder.countRelationshipSlot c₂ = .ok c := by
    refine foldlM_total fun c id slot _ => ?_
    unfold DeltaBuilder.countRelationshipSlot
    split <;> exact ⟨_, rfl⟩
  obtain ⟨c₃, h₃⟩ := h₃
  have h₄ : ∃ c, ctx.delta.properties.foldlM DeltaBuilder.countPropertySlot c₃ = .ok c := by
    refine foldlM_total fun c k slot hs => ?_
    obtain ⟨same, hsame⟩ := coupled_comparable hI hs
    unfold DeltaBuilder.countPropertySlot
    rw [hsame]
    cases same <;> exact ⟨_, rfl⟩
  obtain ⟨c₄, h₄⟩ := h₄
  refine ⟨c₄, ofStorage_ok.mpr ?_⟩
  exact bind_eq_ok.mpr ⟨c₁, h₁, bind_eq_ok.mpr ⟨c₂, h₂, bind_eq_ok.mpr ⟨c₃, h₃, h₄⟩⟩⟩

theorem coupled_layer (hI : Coupled ctx) (h : ctx.delta.layer = .ok l) :
    l.nodes = ctx.delta.nodes.filterMap DeltaBuilder.existenceEntry ∧
      l.labels = ctx.delta.labels.filterMap DeltaBuilder.existenceEntry ∧
      l.relationships = ctx.delta.relationships.filterMap DeltaBuilder.relationshipEntry ∧
      l.properties = ctx.delta.properties.filterMap DeltaBuilder.propertyEntry := by
  rw [DeltaBuilder.layer_ok (coupled_keyed hI) h]
  exact ⟨rfl, rfl, rfl, rfl⟩

theorem existence_through [Ord κ] [TransOrd κ] [LawfulEqOrd κ] {slots : ExtTreeMap κ (Slot Bool)}
    {base staged : κ → Bool} (h : Tracks slots base staged) (k : κ) :
    (match (slots.filterMap DeltaBuilder.existenceEntry)[k]? with
      | some op => op == DeltaOp.add
      | none => base k) = staged k := by
  rw [ExtTreeMap.getElem?_filterMap']
  cases hs : slots[k]? with
  | none => exact (tracks_none h hs).symm
  | some slot =>
    obtain ⟨hb, hc⟩ := tracks_some h hs
    simp only [Option.bind_some, DeltaBuilder.existenceEntry]
    by_cases he : slot.before = slot.current
    · rw [if_pos he]
      show base k = staged k
      rw [← hb, ← hc, he]
    · rw [if_neg he, ← hc]
      cases slot.current <;> rfl

theorem existence_changed [Ord κ] [TransOrd κ] [LawfulEqOrd κ] {slots : ExtTreeMap κ (Slot Bool)}
    {base staged : κ → Bool} (h : Tracks slots base staged) {k : κ} {op : DeltaOp}
    (hk : (slots.filterMap DeltaBuilder.existenceEntry)[k]? = some op) : base k ≠ staged k := by
  rw [ExtTreeMap.getElem?_filterMap'] at hk
  obtain ⟨slot, hs, he⟩ := Option.bind_eq_some_iff.mp hk
  obtain ⟨hb, hc⟩ := tracks_some h hs
  unfold DeltaBuilder.existenceEntry at he
  split at he
  · cases he
  · rwa [← hb, ← hc]

theorem coupled_sameView (hI : Coupled ctx) (h : ctx.delta.layer = .ok l) :
    Snapshot.SameView (ctx.base.applyLayer l) ctx.staged := by
  obtain ⟨hn, hl, hr, hp⟩ := coupled_layer hI h
  refine ⟨fun id => ?_, fun node => Snapshot.labels_congr fun label => ?_, fun id => ?_,
    fun k => ?_⟩
  · rw [Snapshot.nodeExists_applyLayer, hn]
    exact existence_through hI.nodes id
  · rw [Snapshot.hasLabel_applyLayer, hl]
    · exact existence_through hI.labels (node, label)
    · intro op hop
      rw [hl, ExtTreeMap.getElem?_filterMap'] at hop
      obtain ⟨slot, hs, _⟩ := Option.bind_eq_some_iff.mp hop
      exact (hI.labelIds (node, label) slot hs).2
  · rw [Snapshot.relationship_applyLayer, hr, ExtTreeMap.getElem?_filterMap']
    cases hs : ctx.delta.relationships[id]? with
    | none => exact (tracks_none hI.relationships hs).symm
    | some slot =>
      obtain ⟨hb, hc⟩ := tracks_some hI.relationships hs
      simp only [Option.bind_some, DeltaBuilder.relationshipEntry]
      by_cases he : slot.before = slot.current
      · rw [if_pos he]
        show ctx.base.relationship id = ctx.staged.relationship id
        rw [← hb, ← hc, he]
      · rw [if_neg he, ← hc]
        cases hcur : slot.current with
        | some r => rfl
        | none =>
          cases hbef : slot.before with
          | some r => rfl
          | none => exact absurd (hbef.trans hcur.symm) he
  · rw [Snapshot.property_applyLayer, hp, ExtTreeMap.getElem?_filterMap']
    cases hs : ctx.delta.properties[k]? with
    | none =>
      rw [tracks_none hI.properties hs]
      exact sameProperty_refl _
    | some slot =>
      obtain ⟨hb, hc⟩ := tracks_some hI.properties hs
      obtain ⟨same, hsame⟩ := coupled_comparable hI hs
      simp only [Option.bind_some, DeltaBuilder.propertyEntry,
        DeltaBuilder.statesDiffer_of_ok hsame]
      cases same with
      | true =>
        show SameProperty (ctx.base.property k) (ctx.staged.property k)
        rw [← hb, ← hc]
        exact Or.inr hsame
      | false =>
        rw [← hc]
        cases slot.current <;> exact sameProperty_refl _

theorem coupled_onlyChanges (hI : Coupled ctx) (h : ctx.delta.layer = .ok l) :
    OnlyChanges ctx.base ctx.staged l := by
  obtain ⟨hn, hl, hr, hp⟩ := coupled_layer hI h
  refine ⟨fun id op hop => ?_, fun r op hop => ?_, fun id d hd => ?_, fun k d hd => ?_⟩
  · rw [hn] at hop
    exact existence_changed hI.nodes hop
  · rw [hl] at hop
    exact existence_changed hI.labels hop
  · rw [hr, ExtTreeMap.getElem?_filterMap'] at hd
    obtain ⟨slot, hs, he⟩ := Option.bind_eq_some_iff.mp hd
    obtain ⟨hb, hc⟩ := tracks_some hI.relationships hs
    unfold DeltaBuilder.relationshipEntry at he
    split at he
    · cases he
    · rwa [← hb, ← hc]
  · rw [hp, ExtTreeMap.getElem?_filterMap'] at hd
    obtain ⟨slot, hs, he⟩ := Option.bind_eq_some_iff.mp hd
    obtain ⟨hb, hc⟩ := tracks_some hI.properties hs
    obtain ⟨same, hsame⟩ := coupled_comparable hI hs
    unfold DeltaBuilder.propertyEntry at he
    rw [DeltaBuilder.statesDiffer_of_ok hsame] at he
    cases same with
    | true => cases he
    | false =>
      rw [← hb, ← hc]
      rintro (heq | heq)
      · rw [heq] at hsame
        cases hcur : slot.current with
        | none =>
          rw [hcur] at hsame
          cases hsame
        | some v =>
          obtain ⟨bytes, hv⟩ := hI.staged.encodable k v (by rw [← hc, hcur])
          rw [hcur, propertyStatesEqual, canonicalValuesEqual_true.mpr ⟨bytes, hv, hv⟩] at hsame
          cases hsame
      · rw [hsame] at heq
        cases heq

/-! ## 3. The counters of a coupled statement -/

theorem existence_count [Ord κ] [TransOrd κ] (slots : ExtTreeMap κ (Slot Bool)) (op : DeltaOp) :
    (slots.filterMap DeltaBuilder.existenceEntry).toList.countP (·.2 == op) =
      slots.toList.countP (DeltaBuilder.existenceHit op) := by
  rw [Library.countP_filterMap]
  congr 1
  funext e
  unfold DeltaBuilder.existenceHit
  cases DeltaBuilder.existenceEntry e.1 e.2 <;> simp

/-- No relationship is replaced. -/
theorem coupled_relationship_count (hI : Coupled ctx) (h : ctx.delta.layer = .ok l) :
    relationshipEntries l .add =
        ctx.delta.relationships.toList.countP DeltaBuilder.relationshipCreated ∧
      relationshipEntries l .remove =
        ctx.delta.relationships.toList.countP DeltaBuilder.relationshipDeleted := by
  unfold relationshipEntries
  rw [(coupled_layer hI h).2.2.1, Library.countP_filterMap, Library.countP_filterMap]
  have hslot : ∀ e ∈ ctx.delta.relationships.toList, ∀ r, e.2.current = some r →
      e.2.before = none ∨ e.2.before = some r := by
    intro e he r hr
    obtain ⟨hb, hc⟩ := tracks_some hI.relationships (lookup_of_mem he)
    rw [hb]
    exact hI.lasting e.1 r (by rw [← hc, hr])
  refine ⟨List.countP_congr fun e he => ?_, List.countP_congr fun e he => ?_⟩ <;>
    have hl := hslot e he <;>
    unfold DeltaBuilder.relationshipEntry
  · unfold DeltaBuilder.relationshipCreated
    cases hcur : e.2.current with
    | none => cases e.2.before <;> simp
    | some r => rcases hl r hcur with hb | hb <;> simp [hb]
  · unfold DeltaBuilder.relationshipDeleted
    cases hcur : e.2.current with
    | none => cases e.2.before <;> simp
    | some r => rcases hl r hcur with hb | hb <;> simp [hb]

/-- A property slot that was replaced. -/
def replacedSlot (e : PropertySlot × Slot (Option PropertyValue)) : Bool :=
  DeltaBuilder.statesDiffer e.2.before e.2.current && (e.2.current.isSome && e.2.before.isSome)

/-- A property slot that was filled. -/
def filledSlot (e : PropertySlot × Slot (Option PropertyValue)) : Bool :=
  DeltaBuilder.statesDiffer e.2.before e.2.current && (e.2.current.isSome && e.2.before.isNone)

/-- A property slot that was emptied. -/
def emptiedSlot (e : PropertySlot × Slot (Option PropertyValue)) : Bool :=
  DeltaBuilder.statesDiffer e.2.before e.2.current && e.2.current.isNone

theorem coupled_property_count (hI : Coupled ctx) (h : ctx.delta.layer = .ok l) :
    addedProperties ctx.base l = ctx.delta.properties.toList.countP filledSlot ∧
      changedProperties ctx.base l = ctx.delta.properties.toList.countP replacedSlot ∧
      removedProperties l = ctx.delta.properties.toList.countP emptiedSlot := by
  unfold addedProperties changedProperties removedProperties
  rw [(coupled_layer hI h).2.2.2]
  simp only [Library.countP_filterMap]
  have hbase : ∀ e ∈ ctx.delta.properties.toList, ctx.base.property e.1 = e.2.before :=
    fun e he => (tracks_some hI.properties (lookup_of_mem he)).1.symm
  refine ⟨List.countP_congr fun e he => ?_, List.countP_congr fun e he => ?_,
    List.countP_congr fun e he => ?_⟩ <;>
    unfold DeltaBuilder.propertyEntry
  · rw [hbase e he, filledSlot]
    cases DeltaBuilder.statesDiffer e.2.before e.2.current <;> cases e.2.current <;> simp
  · rw [hbase e he, replacedSlot]
    cases DeltaBuilder.statesDiffer e.2.before e.2.current <;> cases e.2.current <;> simp
  · rw [emptiedSlot]
    cases DeltaBuilder.statesDiffer e.2.before e.2.current <;> cases e.2.current <;> simp

theorem statesDiffer_none : DeltaBuilder.statesDiffer none none = false := rfl

theorem coupled_counts (hI : Coupled ctx) {c : MutationCounters} (hl : ctx.delta.layer = .ok l)
    (hc : ctx.delta.counters = .ok c) : CountsOf ctx.base l c := by
  obtain ⟨hn, hlab, _, _⟩ := coupled_layer hI hl
  obtain ⟨hadd, hrem⟩ := coupled_relationship_count hI hl
  obtain ⟨hfill, hrepl, hempty⟩ := coupled_property_count hI hl
  have hset : ctx.delta.properties.toList.countP DeltaBuilder.propertySet =
      addedProperties ctx.base l + changedProperties ctx.base l := by
    rw [hfill, hrepl]
    refine countP_add_countP (fun e => ?_) (fun e he => ?_) _
    · unfold DeltaBuilder.propertySet filledSlot replacedSlot
      cases DeltaBuilder.statesDiffer e.2.before e.2.current <;> cases e.2.current <;>
        cases e.2.before <;> rfl
    · unfold filledSlot at he
      unfold replacedSlot
      cases hb : e.2.before <;> simp_all
  have hremoved : ctx.delta.properties.toList.countP DeltaBuilder.propertyRemoved =
      removedProperties l + changedProperties ctx.base l := by
    rw [hempty, hrepl]
    refine countP_add_countP (fun e => ?_) (fun e he => ?_) _
    · unfold DeltaBuilder.propertyRemoved emptiedSlot replacedSlot
      cases hcur : e.2.current <;> cases hbef : e.2.before
      · simp [statesDiffer_none]
      · simp
      · simp
      · simp
    · unfold emptiedSlot at he
      unfold replacedSlot
      cases hcur : e.2.current <;> simp_all
  rw [DeltaBuilder.counters_ok hc]
  constructor
  · rw [nodeEntries, hn, existence_count]
  · rw [nodeEntries, hn, existence_count]
  · rw [labelEntries, hlab, existence_count]
  · rw [labelEntries, hlab, existence_count]
  · rw [hadd]
  · rw [hrem]
  · rw [← hset]
  · rw [← hremoved]

end Coupled

/-! ## 4. Every accepted statement -/

/-- **The net delta of a statement is the state it staged.** From every well-formed base snapshot
    and for every accepted sequence of calls the layer exists; laid over the base it shows what
    the statement was reading; its entries are changes only; and the counters count them. -/
theorem netDelta_is_staged {base : Snapshot} (hbase : base.WellFormed) (access : WriteAccess)
    (names : PropertyKeyId → Option Text) {calls : List MutationCall}
    (hcalls : ∀ call ∈ calls, call.Allocated base) {ctx : MutationContext}
    (hrun : runCalls (.new base access names) calls = .ok ctx) :
    ∃ layer counters, ctx.delta.layer = .ok layer ∧ ctx.delta.counters = .ok counters ∧
      Snapshot.SameView (base.applyLayer layer) ctx.staged ∧
      OnlyChanges base ctx.staged layer ∧ CountsOf base layer counters := by
  obtain ⟨hI, hb⟩ := runCalls_coupled (coupled_new hbase access names) hcalls hrun
  have hb : ctx.base = base := hb
  obtain ⟨layer, hl⟩ := coupled_layer_total hI
  obtain ⟨counters, hc⟩ := coupled_counters_total hI
  refine ⟨layer, counters, hl, hc, ?_, ?_, ?_⟩
  · rw [← hb]
    exact coupled_sameView hI hl
  · rw [← hb]
    exact coupled_onlyChanges hI hl
  · rw [← hb]
    exact coupled_counts hI hl hc

/-- A base with one node that has one property. -/
def oneNodeBase : Snapshot where
  checkpoint := some
    { nodes := (∅ : ExtTreeMap NodeId Unit).insert 1 ()
      properties := (∅ : ExtTreeMap PropertySlot PropertyValue).insert (.node, 1, 1) (.integer 5) }

theorem oneNodeBase_wellFormed : oneNodeBase.WellFormed where
  keyed id r h := by simp [oneNodeBase, Snapshot.relationship] at h
  positive id r h := by simp [oneNodeBase, Snapshot.relationship] at h
  encodable slot v h := by
    simp only [oneNodeBase, Snapshot.property, ExtTreeMap.getElem?_empty, lookup_insert] at h
    split at h
    · cases h
      exact ⟨_, rfl⟩
    · cases h

/-- A statement that creates a node and deletes it again, replaces a property and adds one. -/
def replaceAndCancel : List MutationCall :=
  [.setNode 2 true, .setLabel 2 3 true, .setProperty (.node, 1, 1) (some (.integer 6)),
    .setLabelForDelete 2 3 false, .setNode 2 false, .setProperty (.node, 1, 2) (some (.boolean true)),
    .setRelationship 4 (some ⟨4, 1, 1, 1⟩)]

theorem netDelta_is_staged_replaceAndCancel :
    ∃ ctx layer counters, runCalls (.new oneNodeBase {} fun _ => none) replaceAndCancel = .ok ctx ∧
      ctx.delta.layer = .ok layer ∧ ctx.delta.counters = .ok counters ∧
      Snapshot.SameView (oneNodeBase.applyLayer layer) ctx.staged ∧
      OnlyChanges oneNodeBase ctx.staged layer ∧ CountsOf oneNodeBase layer counters := by
  have hok : (runCalls (.new oneNodeBase {} fun _ => none) replaceAndCancel).isOk = true := by
    decide
  obtain ⟨ctx, hctx⟩ := exists_of_isOk hok
  have hcalls : ∀ call ∈ replaceAndCancel, call.Allocated oneNodeBase := by
    intro call hcall
    simp only [replaceAndCancel, List.mem_cons, List.not_mem_nil, or_false] at hcall
    rcases hcall with rfl | rfl | rfl | rfl | rfl | rfl | rfl <;>
      simp [MutationCall.Allocated, oneNodeBase, Snapshot.relationship]
  obtain ⟨layer, counters, h⟩ := netDelta_is_staged oneNodeBase_wellFormed {} _ hcalls hctx
  exact ⟨ctx, layer, counters, hctx, h⟩

end Lithograph.Mutation
