/-
  File:      Lithograph/Mutation/Context.lean
  Subject:   One mutating statement: the staged snapshot it reads beside the net delta it commits
             (`query/mutation/execute/context.rs`).

  Every accepted call writes a fact twice: into the delta's slots and over the staged snapshot. Left
  out: memory reservations and cancellation, which can only refuse a call.

  * `Coupled`, `runCalls_coupled`: the two stay tied to the base snapshot over a whole statement.
-/
import Lithograph.Mutation.Delta
import Lithograph.Query.Access

namespace Lithograph.Mutation

open Std Library Storage Query

structure MutationContext where
  base : Snapshot
  staged : Snapshot
  access : WriteAccess
  /-- The property-key dictionary of the connection. -/
  propertyKeyName : PropertyKeyId → Option Text
  delta : DeltaBuilder := {}

namespace MutationContext

/-! ## 1. The calls -/

/-- `MutationContext::new`: nothing staged yet. -/
def new (base : Snapshot) (access : WriteAccess) (propertyKeyName : PropertyKeyId → Option Text) :
    MutationContext :=
  { base, staged := base, access, propertyKeyName }

def requireDelete (ctx : MutationContext) : QueryResult Unit :=
  refuseWhen (!ctx.access.allowDelete) (.accessDenied "graph element deletion is not allowed")

def requireLabelChanges (ctx : MutationContext) : QueryResult Unit :=
  refuseWhen (!ctx.access.allowLabelChanges) (.accessDenied "Label changes are not allowed")

def applyStagedLayer (ctx : MutationContext) (layer : LayerBuilder) :
    QueryResult MutationContext := do
  let staged ← ofStorage (ctx.staged.applyLayerChecked layer)
  pure { ctx with staged }

def setNode (ctx : MutationContext) (id : NodeId) (current : Bool) :
    QueryResult MutationContext := do
  refuseWhen (current && !ctx.access.allowCreate) (.accessDenied "Node creation is not allowed")
  (if current then .ok () else ctx.requireDelete)
  let delta := ctx.delta.setNode ctx.base id current
  let layer ← ofStorage (if current then ({} : LayerBuilder).addNode id
    else ({} : LayerBuilder).removeNode id)
  { ctx with delta }.applyStagedLayer layer

def setLabelForDelete (ctx : MutationContext) (node : NodeId) (label : LabelId)
    (current : Bool) : QueryResult MutationContext := do
  let delta := ctx.delta.setLabel ctx.base node label current
  let layer ← ofStorage (if current then ({} : LayerBuilder).addLabel node label
    else ({} : LayerBuilder).removeLabel node label)
  { ctx with delta }.applyStagedLayer layer

def setLabel (ctx : MutationContext) (node : NodeId) (label : LabelId) (current : Bool) :
    QueryResult MutationContext := do
  ctx.requireLabelChanges
  ctx.setLabelForDelete node label current

/-- `set_relationship`: a removal is staged only where the staged snapshot has the
    relationship. -/
def setRelationship (ctx : MutationContext) (id : RelationshipId)
    (current : Option RelationshipRecord) : QueryResult MutationContext := do
  refuseWhen (current.isSome && !ctx.access.allowCreate)
    (.accessDenied "Relationship creation is not allowed")
  (if current.isNone then ctx.requireDelete else .ok ())
  let previous := ctx.staged.relationship id
  let delta := ctx.delta.setRelationship ctx.base id current
  let layer ← ofStorage (match current with
    | some record => ({} : LayerBuilder).addRelationship record
    | none =>
      match previous with
      | some record => ({} : LayerBuilder).removeRelationship record
      | none => .ok {})
  { ctx with delta }.applyStagedLayer layer

def setPropertyForDelete (ctx : MutationContext) (slot : PropertySlot)
    (current : Option PropertyValue) : QueryResult MutationContext := do
  let delta := ctx.delta.setProperty ctx.base slot current
  let layer ← ofStorage (match current with
    | some value => ({} : LayerBuilder).setProperty slot.1 slot.2.1 slot.2.2 value
    | none => ({} : LayerBuilder).removeProperty slot.1 slot.2.1 slot.2.2)
  { ctx with delta }.applyStagedLayer layer

/-- The check in front of `set_property`: the name of the key is looked up only where a rule
    could deny it. -/
def checkPropertyKey (ctx : MutationContext) (key : PropertyKeyId) : QueryResult Unit :=
  if ctx.access.properties.isEmpty then .ok ()
  else
    match ctx.propertyKeyName key with
    | none => .error (.internal "property key is missing from the dictionary")
    | some name => ctx.access.checkWriteProperty name

def setProperty (ctx : MutationContext) (slot : PropertySlot) (current : Option PropertyValue) :
    QueryResult MutationContext := do
  ctx.checkPropertyKey slot.2.2
  ctx.setPropertyForDelete slot current

end MutationContext

/-- One call a clause makes on the context. -/
inductive MutationCall where
  | setNode (id : NodeId) (current : Bool)
  | setLabel (node : NodeId) (label : LabelId) (current : Bool)
  | setLabelForDelete (node : NodeId) (label : LabelId) (current : Bool)
  | setRelationship (id : RelationshipId) (current : Option RelationshipRecord)
  | setProperty (slot : PropertySlot) (current : Option PropertyValue)
  | setPropertyForDelete (slot : PropertySlot) (current : Option PropertyValue)

def runCall (ctx : MutationContext) : MutationCall → QueryResult MutationContext
  | .setNode id current => ctx.setNode id current
  | .setLabel node label current => ctx.setLabel node label current
  | .setLabelForDelete node label current => ctx.setLabelForDelete node label current
  | .setRelationship id current => ctx.setRelationship id current
  | .setProperty slot current => ctx.setProperty slot current
  | .setPropertyForDelete slot current => ctx.setPropertyForDelete slot current

/-- The calls of a statement in order; the first refusal ends it. -/
def runCalls (ctx : MutationContext) (calls : List MutationCall) : QueryResult MutationContext :=
  calls.foldlM runCall ctx

/-- `create_relationship` passes a record under the id it just allocated, which no snapshot has
    seen. -/
def MutationCall.Allocated (base : Snapshot) : MutationCall → Prop
  | .setRelationship id (some record) => record.id = id ∧ base.relationship id = none
  | _ => True

variable {current : Bool} {id : RelationshipId}

/-! ## 2. What an accepted call did -/

namespace MutationContext

variable {ctx ctx' : MutationContext}

theorem applyStagedLayer_ok {layer : LayerBuilder} :
    ctx.applyStagedLayer layer = .ok ctx' ↔
      (∃ bytes, layer.hashedBytes = .ok bytes) ∧
        ctx' = { ctx with staged := ctx.staged.applyLayer layer } := by
  unfold applyStagedLayer Snapshot.applyLayerChecked
  simp only [bind_eq_ok, ofStorage_ok, pure, Except.pure, Except.ok.injEq]
  constructor
  · rintro ⟨staged, ⟨bytes, hb, rfl⟩, rfl⟩
    exact ⟨⟨bytes, hb⟩, rfl⟩
  · rintro ⟨⟨bytes, hb⟩, rfl⟩
    exact ⟨_, ⟨bytes, hb, rfl⟩, rfl⟩

theorem setNode_ok {id : NodeId} (h : ctx.setNode id current = .ok ctx') :
    0 < id ∧ ctx' = { ctx with
      delta := ctx.delta.setNode ctx.base id current
      staged := ctx.staged.applyLayer (.ofNode id current) } := by
  unfold setNode at h
  simp only [bind_eq_ok] at h
  obtain ⟨_, _, _, _, layer, hl, h⟩ := h
  rw [ofStorage_ok] at hl
  obtain ⟨_, rfl⟩ := applyStagedLayer_ok.mp h
  cases current with
  | true =>
    obtain ⟨hid, rfl⟩ := LayerBuilder.addNode_ok.mp hl
    exact ⟨hid, rfl⟩
  | false =>
    obtain ⟨hid, rfl⟩ := LayerBuilder.removeNode_ok.mp hl
    exact ⟨hid, rfl⟩

theorem setLabelForDelete_ok {node : NodeId} {label : LabelId}
    (h : ctx.setLabelForDelete node label current = .ok ctx') :
    0 < label ∧ 0 < node ∧ ctx' = { ctx with
      delta := ctx.delta.setLabel ctx.base node label current
      staged := ctx.staged.applyLayer (.ofLabel node label current) } := by
  unfold setLabelForDelete at h
  simp only [bind_eq_ok] at h
  obtain ⟨layer, hl, h⟩ := h
  rw [ofStorage_ok] at hl
  obtain ⟨_, rfl⟩ := applyStagedLayer_ok.mp h
  cases current with
  | true =>
    obtain ⟨⟨hn, hlab⟩, rfl⟩ := LayerBuilder.addLabel_ok.mp hl
    exact ⟨hlab, hn, rfl⟩
  | false =>
    obtain ⟨⟨hn, hlab⟩, rfl⟩ := LayerBuilder.removeLabel_ok.mp hl
    exact ⟨hlab, hn, rfl⟩

/-- The one-entry layer of a relationship call, empty where there is nothing to remove. -/
def relationshipLayer (previous current : Option RelationshipRecord) : LayerBuilder :=
  match current with
  | some record => .ofRelationship record .add
  | none =>
    match previous with
    | some record => .ofRelationship record .remove
    | none => {}

theorem relationshipLayer_silent (previous current : Option RelationshipRecord) :
    (relationshipLayer previous current).nodes = ∅ ∧
      (relationshipLayer previous current).labels = ∅ ∧
      (relationshipLayer previous current).properties = ∅ := by
  unfold relationshipLayer
  cases current <;> cases previous <;> exact ⟨rfl, rfl, rfl⟩

theorem setRelationship_ok {current : Option RelationshipRecord}
    (h : ctx.setRelationship id current = .ok ctx') :
    (∀ r, current = some r → r.Positive) ∧ ctx' = { ctx with
      delta := ctx.delta.setRelationship ctx.base id current
      staged := ctx.staged.applyLayer
        (relationshipLayer (ctx.staged.relationship id) current) } := by
  unfold setRelationship at h
  simp only [bind_eq_ok] at h
  obtain ⟨_, _, _, _, layer, hl, h⟩ := h
  rw [ofStorage_ok] at hl
  obtain ⟨_, rfl⟩ := applyStagedLayer_ok.mp h
  cases current with
  | some record =>
    obtain ⟨hp, rfl⟩ := LayerBuilder.addRelationship_ok.mp hl
    refine ⟨fun r hr => ?_, rfl⟩
    cases hr
    exact hp
  | none =>
    refine ⟨fun r hr => (by cases hr), ?_⟩
    cases hprev : ctx.staged.relationship id with
    | some record =>
      rw [hprev] at hl
      obtain ⟨_, rfl⟩ := LayerBuilder.removeRelationship_ok.mp hl
      rfl
    | none =>
      rw [hprev] at hl
      cases hl
      rfl

theorem setPropertyForDelete_ok {slot : PropertySlot} {current : Option PropertyValue}
    (h : ctx.setPropertyForDelete slot current = .ok ctx') :
    (0 < slot.2.1 ∧ 0 < slot.2.2) ∧
      (∀ v, current = some v → ∃ bytes, v.canonicalBytes = .ok bytes) ∧
      ctx' = { ctx with
        delta := ctx.delta.setProperty ctx.base slot current
        staged := ctx.staged.applyLayer (.ofProperty slot current) } := by
  unfold setPropertyForDelete at h
  simp only [bind_eq_ok] at h
  obtain ⟨layer, hl, h⟩ := h
  rw [ofStorage_ok] at hl
  obtain ⟨⟨bytes, hb⟩, rfl⟩ := applyStagedLayer_ok.mp h
  cases current with
  | none =>
    obtain ⟨hp, rfl⟩ := LayerBuilder.removeProperty_ok.mp hl
    exact ⟨hp, fun v hv => (by cases hv), rfl⟩
  | some value =>
    obtain ⟨hp, rfl⟩ := LayerBuilder.setProperty_ok.mp hl
    refine ⟨hp, fun v hv => ?_, rfl⟩
    cases hv
    -- hashing the layer encoded the value
    unfold LayerBuilder.hashedBytes LayerBuilder.fields at hb
    obtain ⟨_, hb, _⟩ := bind_eq_ok.mp hb
    obtain ⟨records, hr, _⟩ := bind_eq_ok.mp hb
    have hmem : (slot, (⟨.add, some value⟩ : PropertyDelta)) ∈
        ((∅ : ExtTreeMap PropertySlot PropertyDelta).insert slot ⟨.add, some value⟩).toList :=
      mem_of_lookup (by rw [lookup_insert, if_pos rfl])
    obtain ⟨b, hb⟩ := mapM_ok_of_mem hr _ hmem
    unfold LayerBuilder.propertyRecordChecked at hb
    obtain ⟨_, hvalue, _⟩ := bind_eq_ok.mp hb
    obtain ⟨bytes, hbytes, _⟩ := bind_eq_ok.mp hvalue
    exact ⟨bytes, hbytes⟩

end MutationContext

/-! ## 3. The invariant of a statement -/

/-- **The delta and the staged snapshot say the same about the base**: each table of slots tracks
    its reader, and a relationship that was there before is unchanged or gone. -/
structure Coupled (ctx : MutationContext) : Prop where
  base : ctx.base.WellFormed
  staged : ctx.staged.WellFormed
  nodes : Tracks ctx.delta.nodes ctx.base.nodeExists ctx.staged.nodeExists
  labels : Tracks ctx.delta.labels (fun r => ctx.base.hasLabel r.1 r.2)
    (fun r => ctx.staged.hasLabel r.1 r.2)
  relationships : Tracks ctx.delta.relationships ctx.base.relationship ctx.staged.relationship
  properties : Tracks ctx.delta.properties ctx.base.property ctx.staged.property
  nodeIds : ∀ (id : NodeId) slot, ctx.delta.nodes[id]? = some slot → 0 < id
  labelIds : ∀ (r : NodeId × LabelId) slot, ctx.delta.labels[r]? = some slot → 0 < r.1 ∧ 0 < r.2
  propertyIds : ∀ (k : PropertySlot) slot, ctx.delta.properties[k]? = some slot →
    0 < k.2.1 ∧ 0 < k.2.2
  lasting : ∀ id r, ctx.staged.relationship id = some r →
    ctx.base.relationship id = none ∨ ctx.base.relationship id = some r

theorem coupled_new {base : Snapshot} (h : base.WellFormed) (access : WriteAccess)
    (names : PropertyKeyId → Option Text) :
    Coupled (MutationContext.new base access names) where
  base := h
  staged := h
  nodes := tracks_empty _
  labels := tracks_empty _
  relationships := tracks_empty _
  properties := tracks_empty _
  nodeIds id slot hs := by simp [MutationContext.new] at hs
  labelIds r slot hs := by simp [MutationContext.new] at hs
  propertyIds k slot hs := by simp [MutationContext.new] at hs
  lasting _ _ hr := Or.inr hr

theorem touch_ids {κ α : Type} [Ord κ] [TransOrd κ] [LawfulEqOrd κ] [DecidableEq κ]
    {slots : ExtTreeMap κ (Slot α)} {P : κ → Prop} (h : ∀ j slot, slots[j]? = some slot → P j)
    {k : κ} (hk : P k) {before current : α} (j : κ) (slot : Slot α)
    (hs : (touch slots k before current)[j]? = some slot) : P j := by
  rw [getElem?_touch] at hs
  by_cases hj : j = k
  · rw [hj]
    exact hk
  · rw [if_neg hj] at hs
    exact h j slot hs

section Step

variable {ctx ctx' : MutationContext}

theorem setNode_coupled (hI : Coupled ctx) {id : NodeId} (h : ctx.setNode id current = .ok ctx') :
    Coupled ctx' := by
  obtain ⟨hid, rfl⟩ := MutationContext.setNode_ok h
  have hnode := Snapshot.nodeExists_ofNode ctx.staged id current
  have hrel : (ctx.staged.applyLayer (.ofNode id current)).relationship =
      ctx.staged.relationship := Snapshot.relationship_silent rfl
  have hprop : (ctx.staged.applyLayer (.ofNode id current)).property = ctx.staged.property :=
    Snapshot.property_silent rfl
  have hlab : (ctx.staged.applyLayer (.ofNode id current)).hasLabel = ctx.staged.hasLabel :=
    Snapshot.hasLabel_silent rfl
  have ht := tracks_touch hI.nodes id _ fun j hj => (hnode j).trans (if_neg hj)
  rw [hnode id, if_pos rfl] at ht
  constructor
  · exact hI.base
  · exact Snapshot.wellFormed_congr hrel hprop hI.staged
  · exact ht
  · simpa only [DeltaBuilder.setNode, hlab] using hI.labels
  · simpa only [DeltaBuilder.setNode, hrel] using hI.relationships
  · simpa only [DeltaBuilder.setNode, hprop] using hI.properties
  · exact touch_ids hI.nodeIds hid
  · exact hI.labelIds
  · exact hI.propertyIds
  · simpa only [hrel] using hI.lasting

theorem setLabelForDelete_coupled (hI : Coupled ctx) {node : NodeId} {label : LabelId}
    (h : ctx.setLabelForDelete node label current = .ok ctx') : Coupled ctx' := by
  obtain ⟨hlab, hn, rfl⟩ := MutationContext.setLabelForDelete_ok h
  have hlabel := Snapshot.hasLabel_ofLabel ctx.staged node label current hlab
  have hnode : (ctx.staged.applyLayer (.ofLabel node label current)).nodeExists =
      ctx.staged.nodeExists := Snapshot.nodeExists_silent rfl
  have hrel : (ctx.staged.applyLayer (.ofLabel node label current)).relationship =
      ctx.staged.relationship := Snapshot.relationship_silent rfl
  have hprop : (ctx.staged.applyLayer (.ofLabel node label current)).property =
      ctx.staged.property := Snapshot.property_silent rfl
  have ht := tracks_touch hI.labels (node, label) _
    fun j hj => (hlabel j.1 j.2).trans (if_neg hj)
  rw [hlabel node label, if_pos rfl] at ht
  constructor
  · exact hI.base
  · exact Snapshot.wellFormed_congr hrel hprop hI.staged
  · simpa only [DeltaBuilder.setLabel, hnode] using hI.nodes
  · exact ht
  · simpa only [DeltaBuilder.setLabel, hrel] using hI.relationships
  · simpa only [DeltaBuilder.setLabel, hprop] using hI.properties
  · exact hI.nodeIds
  · exact touch_ids hI.labelIds ⟨hn, hlab⟩
  · exact hI.propertyIds
  · simpa only [hrel] using hI.lasting

theorem setPropertyForDelete_coupled (hI : Coupled ctx) {slot : PropertySlot}
    {current : Option PropertyValue} (h : ctx.setPropertyForDelete slot current = .ok ctx') :
    Coupled ctx' := by
  obtain ⟨hpos, henc, rfl⟩ := MutationContext.setPropertyForDelete_ok h
  have hprop := Snapshot.property_ofProperty ctx.staged slot current
  have hnode : (ctx.staged.applyLayer (.ofProperty slot current)).nodeExists =
      ctx.staged.nodeExists := Snapshot.nodeExists_silent rfl
  have hrel : (ctx.staged.applyLayer (.ofProperty slot current)).relationship =
      ctx.staged.relationship := Snapshot.relationship_silent rfl
  have hlab : (ctx.staged.applyLayer (.ofProperty slot current)).hasLabel =
      ctx.staged.hasLabel := Snapshot.hasLabel_silent rfl
  have ht := tracks_touch hI.properties slot _ fun j hj => (hprop j).trans (if_neg hj)
  rw [hprop slot, if_pos rfl] at ht
  constructor
  · exact hI.base
  · refine ⟨?_, ?_, fun k v hv => ?_⟩
    · simpa only [hrel] using hI.staged.keyed
    · simpa only [hrel] using hI.staged.positive
    · rw [hprop] at hv
      split at hv
      · exact henc v hv
      · exact hI.staged.encodable k v hv
  · simpa only [DeltaBuilder.setProperty, hnode] using hI.nodes
  · simpa only [DeltaBuilder.setProperty, hlab] using hI.labels
  · simpa only [DeltaBuilder.setProperty, hrel] using hI.relationships
  · exact ht
  · exact hI.nodeIds
  · exact hI.labelIds
  · exact touch_ids hI.propertyIds hpos
  · simpa only [hrel] using hI.lasting

theorem relationship_relationshipLayer (hI : Coupled ctx) {current : Option RelationshipRecord}
    (hid : ∀ r, current = some r → r.id = id) (j) :
    (ctx.staged.applyLayer (MutationContext.relationshipLayer (ctx.staged.relationship id)
      current)).relationship j = if j = id then current else ctx.staged.relationship j := by
  cases current with
  | some r =>
    have h := Snapshot.relationship_ofRelationship ctx.staged r .add j
    rw [hid r rfl] at h
    exact h
  | none =>
    cases hprev : ctx.staged.relationship id with
    | none =>
      rw [MutationContext.relationshipLayer, Snapshot.relationship_silent rfl]
      split
      · rename_i hj
        rw [hj, hprev]
      · rfl
    | some r =>
      have h := Snapshot.relationship_ofRelationship ctx.staged r .remove j
      rw [hI.staged.keyed id r hprev] at h
      exact h

theorem setRelationship_coupled (hI : Coupled ctx) {current : Option RelationshipRecord}
    (hfresh : (MutationCall.setRelationship id current).Allocated ctx.base)
    (h : ctx.setRelationship id current = .ok ctx') : Coupled ctx' := by
  obtain ⟨hpos, rfl⟩ := MutationContext.setRelationship_ok h
  have hid : ∀ r, current = some r → r.id = id := by
    rintro r rfl
    exact hfresh.1
  have hrel := relationship_relationshipLayer hI hid
  obtain ⟨hn, hl, hp⟩ :=
    MutationContext.relationshipLayer_silent (ctx.staged.relationship id) current
  have hnode := Snapshot.nodeExists_silent (s := ctx.staged) hn
  have hlab := Snapshot.hasLabel_silent (s := ctx.staged) hl
  have hprop := Snapshot.property_silent (s := ctx.staged) hp
  have ht := tracks_touch hI.relationships id _ fun j hj => (hrel j).trans (if_neg hj)
  rw [hrel id, if_pos rfl] at ht
  constructor
  · exact hI.base
  · refine ⟨fun j r hr => ?_, fun j r hr => ?_, ?_⟩
    · rw [hrel] at hr
      split at hr
      · rename_i hj
        rw [hj]
        exact hid r hr
      · exact hI.staged.keyed j r hr
    · rw [hrel] at hr
      split at hr
      · exact hpos r hr
      · exact hI.staged.positive j r hr
    · simpa only [hprop] using hI.staged.encodable
  · simpa only [DeltaBuilder.setRelationship, hnode] using hI.nodes
  · simpa only [DeltaBuilder.setRelationship, hlab] using hI.labels
  · exact ht
  · simpa only [DeltaBuilder.setRelationship, hprop] using hI.properties
  · exact hI.nodeIds
  · exact hI.labelIds
  · exact hI.propertyIds
  · intro j r hr
    rw [hrel] at hr
    split at hr
    · rename_i hj
      subst hj
      subst hr
      exact Or.inl hfresh.2
    · exact hI.lasting j r hr

theorem runCall_base {call : MutationCall} (h : runCall ctx call = .ok ctx') :
    ctx'.base = ctx.base := by
  cases call with
  | setNode id current =>
    rw [(MutationContext.setNode_ok h).2]
  | setLabel node label current =>
    obtain ⟨_, _, h⟩ := bind_eq_ok.mp h
    rw [(MutationContext.setLabelForDelete_ok h).2.2]
  | setLabelForDelete node label current =>
    rw [(MutationContext.setLabelForDelete_ok h).2.2]
  | setRelationship id current =>
    rw [(MutationContext.setRelationship_ok h).2]
  | setProperty slot current =>
    obtain ⟨_, _, h⟩ := bind_eq_ok.mp h
    rw [(MutationContext.setPropertyForDelete_ok h).2.2]
  | setPropertyForDelete slot current =>
    rw [(MutationContext.setPropertyForDelete_ok h).2.2]

/-- **One accepted call keeps the invariant.** -/
theorem runCall_coupled (hI : Coupled ctx) {call : MutationCall} (ha : call.Allocated ctx.base)
    (h : runCall ctx call = .ok ctx') : Coupled ctx' := by
  cases call with
  | setNode id current => exact setNode_coupled hI h
  | setLabel node label current =>
    obtain ⟨_, _, h⟩ := bind_eq_ok.mp h
    exact setLabelForDelete_coupled hI h
  | setLabelForDelete node label current => exact setLabelForDelete_coupled hI h
  | setRelationship id current => exact setRelationship_coupled hI ha h
  | setProperty slot current =>
    obtain ⟨_, _, h⟩ := bind_eq_ok.mp h
    exact setPropertyForDelete_coupled hI h
  | setPropertyForDelete slot current => exact setPropertyForDelete_coupled hI h

end Step

/-- **A whole accepted statement keeps the invariant**, and its base. -/
theorem runCalls_coupled {calls : List MutationCall} {ctx ctx' : MutationContext}
    (hI : Coupled ctx) (ha : ∀ call ∈ calls, call.Allocated ctx.base)
    (h : runCalls ctx calls = .ok ctx') : Coupled ctx' ∧ ctx'.base = ctx.base := by
  refine list_foldlM_inv (fun c => Coupled c ∧ c.base = ctx.base)
    (fun c call c' hcall hc hrun => ⟨runCall_coupled hc.1 ?_ hrun, ?_⟩) ⟨hI, rfl⟩ h
  · rw [hc.2]
    exact ha call hcall
  · rw [runCall_base hrun]
    exact hc.2

end Lithograph.Mutation
