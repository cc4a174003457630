/-
  File:      Lithograph/Storage/LayerSupply.lean
  Subject:   A layer from the changes supplied to its constructors (`storage/layer.rs`).

  * `supply_perm`: the order in which changes of different slots are supplied does not matter.
-/
import Lithograph.Storage.LayerRows

namespace Lithograph.Storage

open Std Library

/-- A call of a constructor of `LayerBuilder`. -/
inductive LayerChange where
  | addNode (id : NodeId)
  | removeNode (id : NodeId)
  | addLabel (node : NodeId) (label : LabelId)
  | removeLabel (node : NodeId) (label : LabelId)
  | addRelationship (record : RelationshipRecord)
  | removeRelationship (record : RelationshipRecord)
  | setProperty (slot : PropertySlot) (value : PropertyValue)
  | removeProperty (slot : PropertySlot)

/-- The slot a change is about. -/
inductive LayerSlot where
  | node (id : NodeId)
  | label (row : NodeId × LabelId)
  | relationship (id : RelationshipId)
  | property (slot : PropertySlot)
  deriving DecidableEq

/-- What a change enters under its slot. -/
inductive LayerEntry where
  | node (id : NodeId) (op : DeltaOp)
  | label (row : NodeId × LabelId) (op : DeltaOp)
  | relationship (delta : RelationshipDelta)
  | property (slot : PropertySlot) (delta : PropertyDelta)

namespace LayerChange

def apply (l : LayerBuilder) : LayerChange → StorageResult LayerBuilder
  | .addNode id => l.addNode id
  | .removeNode id => l.removeNode id
  | .addLabel node label => l.addLabel node label
  | .removeLabel node label => l.removeLabel node label
  | .addRelationship record => l.addRelationship record
  | .removeRelationship record => l.removeRelationship record
  | .setProperty slot value => l.setProperty slot.1 slot.2.1 slot.2.2 value
  | .removeProperty slot => l.removeProperty slot.1 slot.2.1 slot.2.2

def entry : LayerChange → LayerEntry
  | .addNode id => .node id .add
  | .removeNode id => .node id .remove
  | .addLabel node label => .label (node, label) .add
  | .removeLabel node label => .label (node, label) .remove
  | .addRelationship record => .relationship ⟨.add, record⟩
  | .removeRelationship record => .relationship ⟨.remove, record⟩
  | .setProperty slot value => .property slot ⟨.add, some value⟩
  | .removeProperty slot => .property slot ⟨.remove, none⟩

end LayerChange

namespace LayerEntry

def slot : LayerEntry → LayerSlot
  | .node id _ => .node id
  | .label row _ => .label row
  | .relationship delta => .relationship delta.record.id
  | .property slot _ => .property slot

/-- The identifiers of an entry are positive. -/
def Positive : LayerEntry → Prop
  | .node id _ => 0 < id
  | .label row _ => 0 < row.1 ∧ 0 < row.2
  | .relationship delta => delta.record.Positive
  | .property slot _ => 0 < slot.2.1 ∧ 0 < slot.2.2

/-- The numbers of an entry are of the machine types the source gives them. -/
def InRange : LayerEntry → Prop
  | .node id _ => id < 2 ^ 63
  | .label row _ => row.1 < 2 ^ 63 ∧ row.2 < 2 ^ 63
  | .relationship delta => delta.record.id < 2 ^ 63 ∧ delta.record.source < 2 ^ 63 ∧
      delta.record.typeId < 2 ^ 63 ∧ delta.record.target < 2 ^ 63
  | .property slot delta => (slot.2.1 < 2 ^ 63 ∧ slot.2.2 < 2 ^ 63) ∧
      ∀ v, delta.value = some v → v.InRange

def put (l : LayerBuilder) : LayerEntry → LayerBuilder
  | .node id op => { l with nodes := l.nodes.insert id op }
  | .label row op => { l with labels := l.labels.insert row op }
  | .relationship delta =>
      { l with relationships := l.relationships.insert delta.record.id delta }
  | .property slot delta => { l with properties := l.properties.insert slot delta }

end LayerEntry

variable {l : LayerBuilder} {c : LayerChange}

/-- **A change is accepted exactly where its identifiers are positive.** -/
theorem LayerChange.apply_ok {l' : LayerBuilder} :
    c.apply l = .ok l' ↔ c.entry.Positive ∧ l' = c.entry.put l := by
  cases c with
  | addNode id => exact LayerBuilder.addNode_ok
  | removeNode id => exact LayerBuilder.removeNode_ok
  | addLabel node label => exact LayerBuilder.addLabel_ok
  | removeLabel node label => exact LayerBuilder.removeLabel_ok
  | addRelationship record => exact LayerBuilder.addRelationship_ok
  | removeRelationship record => exact LayerBuilder.removeRelationship_ok
  | setProperty slot value => exact LayerBuilder.setProperty_ok
  | removeProperty slot => exact LayerBuilder.removeProperty_ok

/-- The layer of the changes, supplied one after the other. -/
def LayerBuilder.supply (changes : List LayerChange) : StorageResult LayerBuilder :=
  changes.foldlM LayerChange.apply {}

/-! ## 1. The order of supply -/

theorem LayerEntry.put_comm (l : LayerBuilder) {e e' : LayerEntry} (h : e.slot ≠ e'.slot) :
    e'.put (e.put l) = e.put (e'.put l) := by
  cases e with
  | node id op =>
    cases e' with
    | node id' op' =>
      have hne : id ≠ id' := fun heq => h (congrArg LayerSlot.node heq)
      unfold LayerEntry.put
      simp only [insert_comm l.nodes hne]
    | _ => rfl
  | label row op =>
    cases e' with
    | label row' op' =>
      have hne : row ≠ row' := fun heq => h (congrArg LayerSlot.label heq)
      unfold LayerEntry.put
      simp only [insert_comm l.labels hne]
    | _ => rfl
  | relationship delta =>
    cases e' with
    | relationship delta' =>
      have hne : delta.record.id ≠ delta'.record.id :=
        fun heq => h (congrArg LayerSlot.relationship heq)
      unfold LayerEntry.put
      simp only [insert_comm l.relationships hne]
    | _ => rfl
  | property slot delta =>
    cases e' with
    | property slot' delta' =>
      have hne : slot ≠ slot' := fun heq => h (congrArg LayerSlot.property heq)
      unfold LayerEntry.put
      simp only [insert_comm l.properties hne]
    | _ => rfl

/-- **The order of changes of different slots does not matter.** -/
theorem supply_perm {changes changes' : List LayerChange}
    (hslots : (changes.map fun c => c.entry.slot).Nodup) (hperm : changes.Perm changes')
    (h : LayerBuilder.supply changes = .ok l) : LayerBuilder.supply changes' = .ok l := by
  have hpair : changes.Pairwise fun c c' => c.entry.slot ≠ c'.entry.slot :=
    List.pairwise_map.mp hslots
  refine list_foldlM_perm (fun hne => hne.symm) (fun {c c' s s₁ s₂} hne hc hc' => ?_) hperm hpair h
  obtain ⟨hpos, rfl⟩ := LayerChange.apply_ok.mp hc
  obtain ⟨hpos', rfl⟩ := LayerChange.apply_ok.mp hc'
  refine ⟨c'.entry.put s, LayerChange.apply_ok.mpr ⟨hpos', rfl⟩, ?_⟩
  exact LayerChange.apply_ok.mpr ⟨hpos, LayerEntry.put_comm s hne⟩

/-! ## 2. What is supplied is built -/

theorem LayerChange.entry_built {slot : PropertySlot} {delta : PropertyDelta}
    (h : c.entry = .property slot delta) (hrange : ∀ v, delta.value = some v → v.InRange) :
    delta.Built := by
  cases c with
  | setProperty slot' value =>
    cases h
    exact Or.inl ⟨rfl, value, rfl, hrange value rfl⟩
  | removeProperty slot' =>
    cases h
    exact Or.inr ⟨rfl, rfl⟩
  | _ => cases h

theorem entered_put (hl : l.Entered) (hpos : c.entry.Positive) (hrange : c.entry.InRange) :
    (c.entry.put l).Entered := by
  cases he : c.entry with
  | node id op =>
    rw [he] at hpos hrange
    refine ⟨fun j op' hj => ?_, hl.labels, hl.relationships, hl.properties⟩
    rw [show (LayerEntry.put l (.node id op)).nodes = l.nodes.insert id op from rfl,
      lookup_insert] at hj
    split at hj
    · rename_i hid
      exact hid ▸ ⟨hpos, hrange⟩
    · exact hl.nodes j op' hj
  | label row op =>
    rw [he] at hpos hrange
    refine ⟨hl.nodes, fun j op' hj => ?_, hl.relationships, hl.properties⟩
    rw [show (LayerEntry.put l (.label row op)).labels = l.labels.insert row op from rfl,
      lookup_insert] at hj
    split at hj
    · rename_i hid
      exact hid ▸ ⟨⟨hpos.1, hrange.1⟩, ⟨hpos.2, hrange.2⟩⟩
    · exact hl.labels j op' hj
  | relationship delta =>
    rw [he] at hpos hrange
    refine ⟨hl.nodes, hl.labels, fun j delta' hj => ?_, hl.properties⟩
    rw [show (LayerEntry.put l (.relationship delta)).relationships =
      l.relationships.insert delta.record.id delta from rfl, lookup_insert] at hj
    split at hj
    · rename_i hid
      cases hj
      exact ⟨hid.symm, ⟨hpos.1, hrange.1⟩, ⟨hpos.2.1, hrange.2.1⟩, ⟨hpos.2.2.1, hrange.2.2.1⟩,
        ⟨hpos.2.2.2, hrange.2.2.2⟩⟩
    · exact hl.relationships j delta' hj
  | property slot delta =>
    rw [he] at hpos hrange
    refine ⟨hl.nodes, hl.labels, hl.relationships, fun j delta' hj => ?_⟩
    rw [show (LayerEntry.put l (.property slot delta)).properties =
      l.properties.insert slot delta from rfl, lookup_insert] at hj
    split at hj
    · rename_i hid
      cases hj
      exact hid ▸ ⟨⟨hpos.1, hrange.1.1⟩, ⟨hpos.2, hrange.1.2⟩, LayerChange.entry_built he hrange.2⟩
    · exact hl.properties j delta' hj

theorem slotCount_put (l : LayerBuilder) (e : LayerEntry) :
    (e.put l).slotCount ≤ l.slotCount + 1 := by
  unfold LayerBuilder.slotCount
  cases e with
  | node id op =>
    have := ExtTreeMap.size_insert_le (t := l.nodes) (k := id) (v := op)
    simp only [LayerEntry.put]
    omega
  | label row op =>
    have := ExtTreeMap.size_insert_le (t := l.labels) (k := row) (v := op)
    simp only [LayerEntry.put]
    omega
  | relationship delta =>
    have := ExtTreeMap.size_insert_le (t := l.relationships) (k := delta.record.id) (v := delta)
    simp only [LayerEntry.put]
    omega
  | property slot delta =>
    have := ExtTreeMap.size_insert_le (t := l.properties) (k := slot) (v := delta)
    simp only [LayerEntry.put]
    omega

/-- **Changes over machine numbers make a built layer.** -/
theorem built_supply {changes : List LayerChange} {l : LayerBuilder}
    (hrange : ∀ c ∈ changes, c.entry.InRange) (hcount : changes.length < 2 ^ 64)
    (h : LayerBuilder.supply changes = .ok l) : l.Built := by
  have hstart : LayerBuilder.Entered {} := by
    constructor <;> intro k v hk <;> simp at hk
  have hentered : l.Entered := by
    refine list_foldlM_inv LayerBuilder.Entered (fun s c s' hc hs hstep => ?_) hstart h
    obtain ⟨hpos, rfl⟩ := LayerChange.apply_ok.mp hstep
    exact entered_put hs hpos (hrange c hc)
  have hslots : ∀ (changes : List LayerChange) (s s' : LayerBuilder),
      changes.foldlM LayerChange.apply s = .ok s' → s'.slotCount ≤ s.slotCount + changes.length := by
    intro changes
    induction changes with
    | nil =>
      intro s s' h
      cases h
      exact Nat.le_refl _
    | cons c changes ih =>
      intro s s' h
      obtain ⟨s₁, hstep, h⟩ := bind_eq_ok.mp h
      obtain ⟨_, rfl⟩ := LayerChange.apply_ok.mp hstep
      have h₁ := slotCount_put s c.entry
      have h₂ := ih _ _ h
      rw [List.length_cons]
      omega
  have hzero : LayerBuilder.slotCount {} = 0 := by
    unfold LayerBuilder.slotCount
    simp
  have := hslots changes {} l h
  exact ⟨hentered, by omega⟩

end Lithograph.Storage
