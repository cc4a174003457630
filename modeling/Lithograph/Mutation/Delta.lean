/-
  File:      Lithograph/Mutation/Delta.lean
  Subject:   The net change of one statement: the slots it touched and the layer and counters they
             come to (`query/mutation/execute/delta.rs`).

  The base value is captured at first touch, the current value overwritten at every touch. `layer`
  and `counters` skip the slots whose two values agree.
-/
import Lithograph.Library.Slots
import Lithograph.Query.Error
import Lithograph.Storage.Snapshot

namespace Lithograph.Mutation

open Std Library Storage Query

structure DeltaBuilder where
  nodes : ExtTreeMap NodeId (Slot Bool) := ∅
  labels : ExtTreeMap (NodeId × LabelId) (Slot Bool) := ∅
  relationships : ExtTreeMap RelationshipId (Slot (Option RelationshipRecord)) := ∅
  properties : ExtTreeMap PropertySlot (Slot (Option PropertyValue)) := ∅

/-- The counters of one execution; each one saturates at the largest `u64`. -/
structure MutationCounters where
  nodesCreated : Nat := 0
  nodesDeleted : Nat := 0
  relationshipsCreated : Nat := 0
  relationshipsDeleted : Nat := 0
  propertiesSet : Nat := 0
  propertiesRemoved : Nat := 0
  labelsAdded : Nat := 0
  labelsRemoved : Nat := 0
  deriving DecidableEq, Repr

/-- The largest `u64`. -/
def u64Max : Nat := 2 ^ 64 - 1

/-- `saturating_add(1)`. -/
def saturatingSucc (n : Nat) : Nat := min (n + 1) u64Max

variable {l l' : LayerBuilder} {slot : Slot Bool} {c c' : MutationCounters}

namespace DeltaBuilder

/-! ## 1. The setters -/

def setNode (d : DeltaBuilder) (base : Snapshot) (id : NodeId) (current : Bool) : DeltaBuilder :=
  { d with nodes := touch d.nodes id (base.nodeExists id) current }

def setLabel (d : DeltaBuilder) (base : Snapshot) (node : NodeId) (label : LabelId)
    (current : Bool) : DeltaBuilder :=
  { d with labels := touch d.labels (node, label) (base.hasLabel node label) current }

def setRelationship (d : DeltaBuilder) (base : Snapshot) (id : RelationshipId)
    (current : Option RelationshipRecord) : DeltaBuilder :=
  { d with relationships := touch d.relationships id (base.relationship id) current }

def setProperty (d : DeltaBuilder) (base : Snapshot) (slot : PropertySlot)
    (current : Option PropertyValue) : DeltaBuilder :=
  { d with properties := touch d.properties slot (base.property slot) current }

/-! ## 2. The layer -/

def applyNodeSlot (layer : LayerBuilder) (id : NodeId) (slot : Slot Bool) :
    StorageResult LayerBuilder :=
  if slot.before = slot.current then .ok layer
  else if slot.current then layer.addNode id
  else layer.removeNode id

def applyLabelSlot (layer : LayerBuilder) (row : NodeId × LabelId) (slot : Slot Bool) :
    StorageResult LayerBuilder :=
  if slot.before = slot.current then .ok layer
  else if slot.current then layer.addLabel row.1 row.2
  else layer.removeLabel row.1 row.2

def applyRelationshipSlot (layer : LayerBuilder) (_ : RelationshipId)
    (slot : Slot (Option RelationshipRecord)) : StorageResult LayerBuilder :=
  if slot.before = slot.current then .ok layer
  else
    match slot.current with
    | some record => layer.addRelationship record
    | none =>
      match slot.before with
      | some record => layer.removeRelationship record
      | none => .ok layer

def applyPropertySlot (layer : LayerBuilder) (key : PropertySlot)
    (slot : Slot (Option PropertyValue)) : StorageResult LayerBuilder := do
  if ← propertyStatesEqual slot.before slot.current then
    pure layer
  else
    match slot.current with
    | some value => layer.setProperty key.1 key.2.1 key.2.2 value
    | none => layer.removeProperty key.1 key.2.1 key.2.2

def applyNodeSlots (d : DeltaBuilder) (layer : LayerBuilder) : StorageResult LayerBuilder :=
  d.nodes.foldlM applyNodeSlot layer

def applyLabelSlots (d : DeltaBuilder) (layer : LayerBuilder) : StorageResult LayerBuilder :=
  d.labels.foldlM applyLabelSlot layer

def applyRelationshipSlots (d : DeltaBuilder) (layer : LayerBuilder) : StorageResult LayerBuilder :=
  d.relationships.foldlM applyRelationshipSlot layer

def applyPropertySlots (d : DeltaBuilder) (layer : LayerBuilder) : StorageResult LayerBuilder :=
  d.properties.foldlM applyPropertySlot layer

def layerSlots (d : DeltaBuilder) : StorageResult LayerBuilder := do
  let layer ← d.applyNodeSlots {}
  let layer ← d.applyLabelSlots layer
  let layer ← d.applyRelationshipSlots layer
  d.applyPropertySlots layer

def layer (d : DeltaBuilder) : QueryResult LayerBuilder := ofStorage d.layerSlots

/-! ## 3. The counters -/

def countNodeSlot (c : MutationCounters) (_ : NodeId) (slot : Slot Bool) :
    StorageResult MutationCounters :=
  if slot.before = slot.current then .ok c
  else if slot.current then .ok { c with nodesCreated := saturatingSucc c.nodesCreated }
  else .ok { c with nodesDeleted := saturatingSucc c.nodesDeleted }

def countLabelSlot (c : MutationCounters) (_ : NodeId × LabelId) (slot : Slot Bool) :
    StorageResult MutationCounters :=
  if slot.before = slot.current then .ok c
  else if slot.current then .ok { c with labelsAdded := saturatingSucc c.labelsAdded }
  else .ok { c with labelsRemoved := saturatingSucc c.labelsRemoved }

/-- Only an appearance and a disappearance count. -/
def countRelationshipSlot (c : MutationCounters) (_ : RelationshipId)
    (slot : Slot (Option RelationshipRecord)) : StorageResult MutationCounters :=
  match slot.before, slot.current with
  | none, some _ => .ok { c with relationshipsCreated := saturatingSucc c.relationshipsCreated }
  | some _, none => .ok { c with relationshipsDeleted := saturatingSucc c.relationshipsDeleted }
  | _, _ => .ok c

/-- A replaced value counts twice, as one removed and one set. -/
def countPropertySlot (c : MutationCounters) (_ : PropertySlot)
    (slot : Slot (Option PropertyValue)) : StorageResult MutationCounters := do
  if ← propertyStatesEqual slot.before slot.current then
    pure c
  else
    let c := if slot.before.isSome then
      { c with propertiesRemoved := saturatingSucc c.propertiesRemoved } else c
    pure (if slot.current.isSome then
      { c with propertiesSet := saturatingSucc c.propertiesSet } else c)

def counterSlots (d : DeltaBuilder) : StorageResult MutationCounters := do
  let c ← d.nodes.foldlM countNodeSlot {}
  let c ← d.labels.foldlM countLabelSlot c
  let c ← d.relationships.foldlM countRelationshipSlot c
  d.properties.foldlM countPropertySlot c

def counters (d : DeltaBuilder) : QueryResult MutationCounters := ofStorage d.counterSlots

/-! ## 4. What the layer holds -/

/-- What a touched existence (of a node, of a label membership) leaves in the layer. -/
def existenceEntry {κ : Type} (_ : κ) (slot : Slot Bool) : Option DeltaOp :=
  if slot.before = slot.current then none else some (if slot.current then .add else .remove)

/-- What a touched relationship leaves in the layer. -/
def relationshipEntry (_ : RelationshipId) (slot : Slot (Option RelationshipRecord)) :
    Option RelationshipDelta :=
  if slot.before = slot.current then none
  else
    match slot.current with
    | some record => some ⟨.add, record⟩
    | none => slot.before.map fun record => ⟨.remove, record⟩

/-- Two property states with different canonical forms. -/
def statesDiffer (before current : Option PropertyValue) : Bool :=
  match propertyStatesEqual before current with
  | .ok false => true
  | _ => false

/-- What a touched property leaves in the layer. -/
def propertyEntry (_ : PropertySlot) (slot : Slot (Option PropertyValue)) : Option PropertyDelta :=
  if statesDiffer slot.before slot.current then
    some (match slot.current with
      | some value => ⟨.add, some value⟩
      | none => ⟨.remove, none⟩)
  else none

theorem applyNodeSlot_ok {id : NodeId} (h : applyNodeSlot l id slot = .ok l') :
    l' = { l with nodes := insertSome l.nodes id (existenceEntry id slot) } := by
  unfold applyNodeSlot at h
  unfold existenceEntry
  split at h
  · rename_i he
    cases h
    rw [if_pos he]
    rfl
  · rename_i he
    rw [if_neg he]
    split at h
    · rename_i hc
      rw [(LayerBuilder.addNode_ok.mp h).2, if_pos hc]
      rfl
    · rename_i hc
      rw [(LayerBuilder.removeNode_ok.mp h).2, if_neg hc]
      rfl

theorem applyLabelSlot_ok {row : NodeId × LabelId} (h : applyLabelSlot l row slot = .ok l') :
    l' = { l with labels := insertSome l.labels row (existenceEntry row slot) } := by
  unfold applyLabelSlot at h
  unfold existenceEntry
  split at h
  · rename_i he
    cases h
    rw [if_pos he]
    rfl
  · rename_i he
    rw [if_neg he]
    split at h
    · rename_i hc
      rw [(LayerBuilder.addLabel_ok.mp h).2, if_pos hc]
      rfl
    · rename_i hc
      rw [(LayerBuilder.removeLabel_ok.mp h).2, if_neg hc]
      rfl

/-- The records of a slot carry the slot's own id. -/
def Keyed (id : RelationshipId) (slot : Slot (Option RelationshipRecord)) : Prop :=
  (∀ r, slot.before = some r → r.id = id) ∧ ∀ r, slot.current = some r → r.id = id

theorem applyRelationshipSlot_ok {id : RelationshipId} {slot : Slot (Option RelationshipRecord)}
    (hk : Keyed id slot) (h : applyRelationshipSlot l id slot = .ok l') : l' = { l with
      relationships := insertSome l.relationships id (relationshipEntry id slot) } := by
  unfold applyRelationshipSlot at h
  unfold relationshipEntry
  split at h
  · rename_i he
    cases h
    rw [if_pos he]
    rfl
  · rename_i he
    rw [if_neg he]
    cases hc : slot.current with
    | some record =>
      rw [hc] at h
      rw [(LayerBuilder.addRelationship_ok.mp h).2, hk.2 record hc]
      rfl
    | none =>
      rw [hc] at h
      cases hb : slot.before with
      | some record =>
        rw [hb] at h
        rw [(LayerBuilder.removeRelationship_ok.mp h).2, hk.1 record hb]
        rfl
      | none => exact absurd (hb.trans hc.symm) he

theorem statesDiffer_of_ok {before current : Option PropertyValue} {b : Bool}
    (h : propertyStatesEqual before current = .ok b) : statesDiffer before current = !b := by
  unfold statesDiffer
  rw [h]
  cases b <;> rfl

theorem applyPropertySlot_ok {key : PropertySlot} {slot : Slot (Option PropertyValue)}
    (h : applyPropertySlot l key slot = .ok l') :
    l' = { l with properties := insertSome l.properties key (propertyEntry key slot) } := by
  unfold applyPropertySlot at h
  obtain ⟨same, hs, h⟩ := bind_eq_ok.mp h
  unfold propertyEntry
  rw [statesDiffer_of_ok hs]
  cases same with
  | true =>
    cases h
    rfl
  | false =>
    cases hc : slot.current with
    | some value =>
      rw [hc] at h
      exact (LayerBuilder.setProperty_ok.mp h).2
    | none =>
      rw [hc] at h
      exact (LayerBuilder.removeProperty_ok.mp h).2

/-- **The layer of a builder is its tables, filtered.** -/
theorem layer_ok {d : DeltaBuilder}
    (hk : ∀ id slot, d.relationships[id]? = some slot → Keyed id slot) (h : d.layer = .ok l) :
    l = { nodes := d.nodes.filterMap existenceEntry
          labels := d.labels.filterMap existenceEntry
          relationships := d.relationships.filterMap relationshipEntry
          properties := d.properties.filterMap propertyEntry } := by
  unfold layer layerSlots at h
  rw [ofStorage_ok] at h
  obtain ⟨l₁, h₁, h⟩ := bind_eq_ok.mp h
  obtain ⟨l₂, h₂, h⟩ := bind_eq_ok.mp h
  obtain ⟨l₃, h₃, h₄⟩ := bind_eq_ok.mp h
  have n₁ : l₁.nodes = d.nodes.filterMap existenceEntry :=
    foldlM_filterMap LayerBuilder.nodes existenceEntry
      (fun l k v l' _ hs => by rw [applyNodeSlot_ok hs]) rfl h₁
  have f₁ : l₁.labels = ∅ ∧ l₁.relationships = ∅ ∧ l₁.properties = ∅ :=
    foldlM_inv (fun l => l.labels = ∅ ∧ l.relationships = ∅ ∧ l.properties = ∅)
      (fun l k v l' _ hI hs => by rw [applyNodeSlot_ok hs]; exact hI) ⟨rfl, rfl, rfl⟩ h₁
  have n₂ : l₂.labels = d.labels.filterMap existenceEntry :=
    foldlM_filterMap LayerBuilder.labels existenceEntry
      (fun l k v l' _ hs => by rw [applyLabelSlot_ok hs]) f₁.1 h₂
  have f₂ : l₂.nodes = l₁.nodes ∧ l₂.relationships = ∅ ∧ l₂.properties = ∅ :=
    foldlM_inv (fun l => l.nodes = l₁.nodes ∧ l.relationships = ∅ ∧ l.properties = ∅)
      (fun l k v l' _ hI hs => by rw [applyLabelSlot_ok hs]; exact hI) ⟨rfl, f₁.2⟩ h₂
  have n₃ : l₃.relationships = d.relationships.filterMap relationshipEntry :=
    foldlM_filterMap LayerBuilder.relationships relationshipEntry
      (fun l k v l' hv hs => by rw [applyRelationshipSlot_ok (hk k v hv) hs]) f₂.2.1 h₃
  have f₃ : l₃.nodes = l₁.nodes ∧ l₃.labels = l₂.labels ∧ l₃.properties = ∅ :=
    foldlM_inv (fun l => l.nodes = l₁.nodes ∧ l.labels = l₂.labels ∧ l.properties = ∅)
      (fun l k v l' hv hI hs => by rw [applyRelationshipSlot_ok (hk k v hv) hs]; exact hI)
      ⟨f₂.1, rfl, f₂.2.2⟩ h₃
  have n₄ : l.properties = d.properties.filterMap propertyEntry :=
    foldlM_filterMap LayerBuilder.properties propertyEntry
      (fun l k v l' _ hs => by rw [applyPropertySlot_ok hs]) f₃.2.2 h₄
  have f₄ : l.nodes = l₁.nodes ∧ l.labels = l₂.labels ∧ l.relationships = l₃.relationships :=
    foldlM_inv (fun l => l.nodes = l₁.nodes ∧ l.labels = l₂.labels ∧
        l.relationships = l₃.relationships)
      (fun l k v l' _ hI hs => by rw [applyPropertySlot_ok hs]; exact hI)
      ⟨f₃.1, f₃.2.1, rfl⟩ h₄
  cases l with
  | mk nodes labels relationships properties =>
    obtain ⟨e₁, e₂, e₃⟩ := f₄
    simp only at e₁ e₂ e₃ n₄
    rw [e₁, e₂, e₃, n₁, n₂, n₃, n₄]

/-! ## 5. What the counters count -/

/-- An existence that appeared (`op = add`) or disappeared (`op = remove`). -/
def existenceHit {κ : Type} (op : DeltaOp) (e : κ × Slot Bool) : Bool :=
  existenceEntry e.1 e.2 == some op

def relationshipCreated (e : RelationshipId × Slot (Option RelationshipRecord)) : Bool :=
  e.2.before.isNone && e.2.current.isSome

def relationshipDeleted (e : RelationshipId × Slot (Option RelationshipRecord)) : Bool :=
  e.2.before.isSome && e.2.current.isNone

def propertySet (e : PropertySlot × Slot (Option PropertyValue)) : Bool :=
  statesDiffer e.2.before e.2.current && e.2.current.isSome

def propertyRemoved (e : PropertySlot × Slot (Option PropertyValue)) : Bool :=
  statesDiffer e.2.before e.2.current && e.2.before.isSome

/-- A counter raised where the slot is hit. -/
def raise (n : Nat) (hit : Bool) : Nat := if hit then min (n + 1) u64Max else n

theorem countNodeSlot_ok {k : NodeId} (h : countNodeSlot c k slot = .ok c') :
    c' = { c with nodesCreated := raise c.nodesCreated (existenceHit .add (k, slot))
                  nodesDeleted := raise c.nodesDeleted (existenceHit .remove (k, slot)) } := by
  unfold countNodeSlot at h
  unfold existenceHit existenceEntry
  split at h
  · cases h
    simp [raise, *]
  · split at h <;> cases h <;> simp_all [raise, saturatingSucc]

theorem countLabelSlot_ok {k : NodeId × LabelId} (h : countLabelSlot c k slot = .ok c') :
    c' = { c with labelsAdded := raise c.labelsAdded (existenceHit .add (k, slot))
                  labelsRemoved := raise c.labelsRemoved (existenceHit .remove (k, slot)) } := by
  unfold countLabelSlot at h
  unfold existenceHit existenceEntry
  split at h
  · cases h
    simp [raise, *]
  · split at h <;> cases h <;> simp_all [raise, saturatingSucc]

theorem countRelationshipSlot_ok {k : RelationshipId} {slot : Slot (Option RelationshipRecord)}
    (h : countRelationshipSlot c k slot = .ok c') : c' = { c with
      relationshipsCreated := raise c.relationshipsCreated (relationshipCreated (k, slot))
      relationshipsDeleted := raise c.relationshipsDeleted (relationshipDeleted (k, slot)) } := by
  unfold countRelationshipSlot at h
  unfold relationshipCreated relationshipDeleted
  cases hb : slot.before <;> cases hc : slot.current <;> rw [hb, hc] at h <;> cases h <;>
    simp [raise, saturatingSucc]

theorem countPropertySlot_ok {k : PropertySlot} {slot : Slot (Option PropertyValue)}
    (h : countPropertySlot c k slot = .ok c') : c' = { c with
      propertiesSet := raise c.propertiesSet (propertySet (k, slot))
      propertiesRemoved := raise c.propertiesRemoved (propertyRemoved (k, slot)) } := by
  unfold countPropertySlot at h
  obtain ⟨same, hs, h⟩ := bind_eq_ok.mp h
  unfold propertySet propertyRemoved
  rw [statesDiffer_of_ok hs]
  cases same with
  | true =>
    cases h
    simp [raise]
  | false =>
    cases h
    cases hb : slot.before <;> cases hc : slot.current <;> simp [raise, saturatingSucc]

theorem count_of_raise {κ β : Type} [Ord κ] [TransOrd κ] [LawfulEqOrd κ] {m : ExtTreeMap κ β}
    {step : MutationCounters → κ → β → StorageResult MutationCounters}
    (look : MutationCounters → Nat) (hit : κ × β → Bool)
    (hstep : ∀ c k v c', step c k v = .ok c' → look c' = raise (look c) (hit (k, v)))
    (h0 : look c = 0) (h : m.foldlM step c = .ok c') :
    look c' = min (m.toList.countP hit) u64Max := by
  have hc := foldlM_count look hit (fun c k v c' _ hs => hstep c k v c' hs)
    (by rw [h0]; exact Nat.zero_le u64Max) h
  rw [hc, h0, Nat.zero_add]

/-- **The counters of a builder**, saturated. -/
theorem counters_ok {d : DeltaBuilder} (h : d.counters = .ok c) :
    c = { nodesCreated := min (d.nodes.toList.countP (existenceHit .add)) u64Max
          nodesDeleted := min (d.nodes.toList.countP (existenceHit .remove)) u64Max
          labelsAdded := min (d.labels.toList.countP (existenceHit .add)) u64Max
          labelsRemoved := min (d.labels.toList.countP (existenceHit .remove)) u64Max
          relationshipsCreated :=
            min (d.relationships.toList.countP relationshipCreated) u64Max
          relationshipsDeleted :=
            min (d.relationships.toList.countP relationshipDeleted) u64Max
          propertiesSet := min (d.properties.toList.countP propertySet) u64Max
          propertiesRemoved := min (d.properties.toList.countP propertyRemoved) u64Max } := by
  unfold counters counterSlots at h
  rw [ofStorage_ok] at h
  obtain ⟨c₁, h₁, h⟩ := bind_eq_ok.mp h
  obtain ⟨c₂, h₂, h⟩ := bind_eq_ok.mp h
  obtain ⟨c₃, h₃, h₄⟩ := bind_eq_ok.mp h
  -- each loop touches the two counters of its own kind
  have f₁ := foldlM_inv (fun c : MutationCounters => c =
      { nodesCreated := c.nodesCreated, nodesDeleted := c.nodesDeleted })
    (fun c k v c' _ hI hs => by rw [countNodeSlot_ok hs, hI]) rfl h₁
  have f₂ := foldlM_inv (fun c : MutationCounters => c =
      { c₁ with labelsAdded := c.labelsAdded, labelsRemoved := c.labelsRemoved })
    (fun c k v c' _ hI hs => by rw [countLabelSlot_ok hs, hI]) rfl h₂
  have f₃ := foldlM_inv (fun c : MutationCounters => c =
      { c₂ with relationshipsCreated := c.relationshipsCreated
                relationshipsDeleted := c.relationshipsDeleted })
    (fun c k v c' _ hI hs => by rw [countRelationshipSlot_ok hs, hI]) rfl h₃
  have f₄ := foldlM_inv (fun c : MutationCounters => c =
      { c₃ with propertiesSet := c.propertiesSet, propertiesRemoved := c.propertiesRemoved })
    (fun c k v c' _ hI hs => by rw [countPropertySlot_ok hs, hI]) rfl h₄
  have n₁ := count_of_raise MutationCounters.nodesCreated (existenceHit .add)
    (fun c k v c' hs => by rw [countNodeSlot_ok hs]) rfl h₁
  have m₁ := count_of_raise MutationCounters.nodesDeleted (existenceHit .remove)
    (fun c k v c' hs => by rw [countNodeSlot_ok hs]) rfl h₁
  have n₂ := count_of_raise MutationCounters.labelsAdded (existenceHit .add)
    (fun c k v c' hs => by rw [countLabelSlot_ok hs]) (by rw [f₁]) h₂
  have m₂ := count_of_raise MutationCounters.labelsRemoved (existenceHit .remove)
    (fun c k v c' hs => by rw [countLabelSlot_ok hs]) (by rw [f₁]) h₂
  have n₃ := count_of_raise MutationCounters.relationshipsCreated relationshipCreated
    (fun c k v c' hs => by rw [countRelationshipSlot_ok hs]) (by rw [f₂, f₁]) h₃
  have m₃ := count_of_raise MutationCounters.relationshipsDeleted relationshipDeleted
    (fun c k v c' hs => by rw [countRelationshipSlot_ok hs]) (by rw [f₂, f₁]) h₃
  have n₄ := count_of_raise MutationCounters.propertiesSet propertySet
    (fun c k v c' hs => by rw [countPropertySlot_ok hs]) (by rw [f₃, f₂, f₁]) h₄
  have m₄ := count_of_raise MutationCounters.propertiesRemoved propertyRemoved
    (fun c k v c' hs => by rw [countPropertySlot_ok hs]) (by rw [f₃, f₂, f₁]) h₄
  rw [f₄, f₃, f₂, f₁, n₁, m₁, n₂, m₂, n₃, m₃, n₄, m₄]

end DeltaBuilder

end Lithograph.Mutation
