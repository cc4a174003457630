/-
  File:      Lithograph/Storage/StagedLayer.lean
  Subject:   One more layer over a staged snapshot, all of it or nothing
             (`storage/snapshot_staged.rs`, `storage/snapshot_overlay.rs`,
             `storage/snapshot_read.rs`).

  Everything that can fail comes before the first write. The observer of the query is a parameter,
  with the sizes of the machine's types, and acts on a world of its own. Left out: the release of
  leases.

  * `applyLayerChecked_all`: a layer is applied as a whole, or the snapshot is as it was.
-/
import Lithograph.Library.Yields
import Lithograph.Storage.OwnerRead

namespace Lithograph.Storage

open Std Library

/-! ## 1. Slots and leases -/

inductive LocalSlot where
  | node (id : NodeId)
  | label (node : NodeId) (label : LabelId)
  | relationship (id : RelationshipId)
  | property (slot : PropertySlot)
  deriving DecidableEq

/-- The derived order: by the kind of slot, then by its fields. -/
def LocalSlot.toKey : LocalSlot → Int × Int × Int × Int
  | .node n => (0, n, 0, 0)
  | .label n l => (1, n, l, 0)
  | .relationship r => (2, r, 0, 0)
  | .property p => (3, p.1.toInt, p.2.1, p.2.2)

instance : Ord LocalSlot := ⟨fun a b => compare a.toKey b.toKey⟩

instance : TransOrd LocalSlot := inferInstanceAs (TransCmp (compareOn LocalSlot.toKey))

/-- What a query brings: its check for cancellation, its observer, and the sizes of the machine.
    `ω` is the world these act on, `L` a lease. -/
structure Budget (ω L : Type) where
  check : EStateM StorageError ω Unit
  observed : Bool
  /-- `snapshot_read::reserve`: no lease where nobody observes. -/
  reserve : Nat → EStateM StorageError ω (Option L)
  /-- `checked_add`, `checked_mul`. -/
  checkedAdd : Nat → Nat → StorageResult Nat
  checkedMul : Nat → Nat → StorageResult Nat
  slotBytes : LocalSlot → Bool → StorageResult Nat
  overlaySlotBytes : LocalSlot → StorageResult Nat
  propertyValueBytes : PropertyValue → EStateM StorageError ω Nat
  layerMemoryBytes : LayerBuilder → EStateM StorageError ω Nat

/-- The overlay with the leases of its entries. -/
structure StagedOverlay (L : Type) extends SnapshotOverlay where
  propertyMemory : ExtTreeMap PropertySlot (List L) := ∅
  structureMemory : List L := []

abbrev LocalLayerMemory (L : Type) := ExtTreeMap LocalSlot L

structure PreparedLayer (L : Type) where
  layer : LayerBuilder
  memory : LocalLayerMemory L

/-! ## 2. What can fail: copies and reservations -/

namespace Budget

variable {ω L : Type} (b : Budget ω L)

/-- `LocalLayerMemory::reserve`. -/
def reserveSlot (memory : LocalLayerMemory L) (slot : LocalSlot) (bytes : Nat) :
    EStateM StorageError ω (LocalLayerMemory L) := do
  match ← b.reserve bytes with
  | some lease => pure (memory.insert slot lease)
  | none => pure memory

/-- One round of the loops of `reserve_metadata`. -/
def reserveKey (overlay : Bool) (memory : LocalLayerMemory L) (slot : LocalSlot) :
    EStateM StorageError ω (LocalLayerMemory L) := do
  b.check
  let bytes ← lifted (b.slotBytes slot overlay)
  b.reserveSlot memory slot bytes

def reserveMetadata (layer : LayerBuilder) (overlay : Bool) :
    EStateM StorageError ω (LocalLayerMemory L) := do
  let memory ← layer.nodes.toList.foldlM (fun memory e => b.reserveKey overlay memory (.node e.1)) ∅
  let memory ← layer.labels.toList.foldlM
    (fun memory e => b.reserveKey overlay memory (.label e.1.1 e.1.2)) memory
  layer.relationships.toList.foldlM
    (fun memory e => b.reserveKey overlay memory (.relationship e.1)) memory

mutual

/-- `clone_value_checked`; the checks between the chunks of a long payload are left out. -/
def cloneValueChecked : PropertyValue → EStateM StorageError ω PropertyValue
  | .list values => do
    b.check
    let output ← cloneValuesChecked values
    pure (.list output)
  | value => do
    b.check
    pure value

def cloneValuesChecked : List PropertyValue → EStateM StorageError ω (List PropertyValue)
  | [] => pure []
  | value :: values => do
    let value ← cloneValueChecked value
    let values ← cloneValuesChecked values
    pure (value :: values)

end

/-- The value of a change, cloned where it has one. -/
def cloneDelta (delta : PropertyDelta) : EStateM StorageError ω PropertyDelta :=
  match delta.value with
  | some value => do
    let value ← b.cloneValueChecked value
    pure { op := delta.op, value := some value }
  | none => pure { op := delta.op, value := none }

/-- A loop of `clone_layer_checked` over entries that are copied as they are. -/
def cloneEntries {K V : Type} [Ord K] [TransOrd K] (entries : ExtTreeMap K V) :
    EStateM StorageError ω (ExtTreeMap K V) :=
  entries.toList.foldlM (fun output e => do
    b.check
    pure (output.insert e.1 e.2)) ∅

def cloneLayerChecked (layer : LayerBuilder) : EStateM StorageError ω LayerBuilder := do
  let nodes ← b.cloneEntries layer.nodes
  let labels ← b.cloneEntries layer.labels
  let relationships ← b.cloneEntries layer.relationships
  let properties ← layer.properties.toList.foldlM (fun output e => do
    b.check
    let delta ← b.cloneDelta e.2
    pure (output.insert e.1 delta)) (∅ : ExtTreeMap PropertySlot PropertyDelta)
  pure { nodes, labels, relationships, properties }

/-- The bytes one property of a layer needs. -/
def propertyBytes (overlay : Bool) (slot : PropertySlot) (delta : PropertyDelta) :
    EStateM StorageError ω Nat :=
  match delta.value with
  | some value => do
    let valueBytes ← b.propertyValueBytes value
    let bytes ← lifted (b.slotBytes (.property slot) overlay)
    lifted (b.checkedAdd valueBytes bytes)
  | none => lifted (b.slotBytes (.property slot) overlay)

def prepareLayer (layer : LayerBuilder) (overlay : Bool) :
    EStateM StorageError ω (PreparedLayer L) := do
  let memory ← b.reserveMetadata layer overlay
  let memory ← layer.properties.toList.foldlM (fun memory e => do
    b.check
    let bytes ← b.propertyBytes overlay e.1 e.2
    b.reserveSlot memory (.property e.1) bytes) memory
  let layer ← b.cloneLayerChecked layer
  pure { layer, memory }

def retainStructure (o : StagedOverlay L) (slot : LocalSlot) :
    EStateM StorageError ω (StagedOverlay L) := do
  let bytes ← lifted (b.overlaySlotBytes slot)
  let bytes ← lifted (b.checkedAdd bytes 256)
  match ← b.reserve bytes with
  | some lease => pure { o with structureMemory := o.structureMemory ++ [lease] }
  | none => pure o

/-- An entry the overlay has not seen retains its structure. -/
def retained (o : StagedOverlay L) (slot : LocalSlot) (known : Bool) :
    EStateM StorageError ω (StagedOverlay L) :=
  if known then pure o else b.retainStructure o slot

def insertNodeObserved (o : StagedOverlay L) (id : NodeId) (op : DeltaOp) :
    EStateM StorageError ω (StagedOverlay L) := do
  b.check
  let o ← b.retained o (.node id) (o.nodes.contains id)
  pure { o with toSnapshotOverlay := o.toSnapshotOverlay.insertNode id op }

def insertLabelObserved (o : StagedOverlay L) (row : NodeId × LabelId) (op : DeltaOp) :
    EStateM StorageError ω (StagedOverlay L) := do
  b.check
  let o ← b.retained o (.label row.1 row.2) (o.labels.contains row)
  pure { o with toSnapshotOverlay := o.toSnapshotOverlay.insertLabel row op }

def insertRelationshipObserved (o : StagedOverlay L) (id : RelationshipId)
    (delta : RelationshipDelta) : EStateM StorageError ω (StagedOverlay L) := do
  b.check
  let o ← b.retained o (.relationship id) (o.relationships.contains id)
  pure { o with toSnapshotOverlay := o.toSnapshotOverlay.applyRelationshipDelta id delta }

def reserveValue (value : PropertyValue) : EStateM StorageError ω (Option L) := do
  b.check
  if b.observed then do
    let bytes ← b.propertyValueBytes value
    let bytes ← lifted (b.checkedAdd bytes 256)
    b.reserve bytes
  else pure none

/-- The lease of the value of a change, where it has one. -/
def reserveDelta (delta : PropertyDelta) : EStateM StorageError ω (Option L) :=
  match delta.value with
  | some value => b.reserveValue value
  | none => pure none

/-- `insert_property_observed`: the leases of the value and of the entry are kept together. -/
def insertPropertyObserved (o : StagedOverlay L) (slot : PropertySlot) (delta : PropertyDelta)
    (memory : Option L) : EStateM StorageError ω (StagedOverlay L) := do
  let bytes ← lifted (b.overlaySlotBytes (.property slot))
  let bytes ← lifted (b.checkedAdd bytes 256)
  let entry ← b.reserve bytes
  let leases := memory.toList ++ entry.toList
  let o := { o with toSnapshotOverlay := o.toSnapshotOverlay.insertProperty slot delta }
  if leases.isEmpty then pure { o with propertyMemory := o.propertyMemory.erase slot }
  else pure { o with propertyMemory := o.propertyMemory.insert slot leases }

def clonePropertyObserved (o : StagedOverlay L) (slot : PropertySlot) (delta : PropertyDelta) :
    EStateM StorageError ω (StagedOverlay L) := do
  let memory ← b.reserveDelta delta
  let delta ← b.cloneDelta delta
  b.insertPropertyObserved o slot delta memory

def cloneObserved (o : StagedOverlay L) : EStateM StorageError ω (StagedOverlay L) := do
  let output ← o.nodes.toList.foldlM (fun output e => b.insertNodeObserved output e.1 e.2) {}
  let output ← o.labels.toList.foldlM (fun output e => b.insertLabelObserved output e.1 e.2) output
  let output ← o.relationships.toList.foldlM
    (fun output e => b.insertRelationshipObserved output e.1 e.2) output
  o.properties.toList.foldlM (fun output e => b.clonePropertyObserved output e.1 e.2) output

def contentHashChecked {H : Type} (hash : Bytes → H) (layer : LayerBuilder) :
    EStateM StorageError ω H := do
  layer.nodes.toList.forM fun _ => b.check
  layer.labels.toList.forM fun _ => b.check
  layer.relationships.toList.forM fun _ => b.check
  layer.properties.toList.forM fun e => do
    let _ ← lifted (LayerBuilder.propertyRecordChecked e.1 e.2)
    b.check
  let bytes ← lifted layer.hashedBytes
  pure (hash bytes)

end Budget

/-! ## 3. The staged snapshot -/

/-- A counted reference: what it refers to, and how many hold it. -/
structure Counted (α : Type) where
  value : α
  strong : Nat

/-- `Rc::new`, `Arc::new`. -/
def Counted.new {α : Type} (value : α) : Counted α := ⟨value, 1⟩

/-- `Rc::get_mut`, `Arc::get_mut`: a reference nobody else holds. -/
def Counted.getMut {α : Type} (c : Counted α) : Option α :=
  if c.strong = 1 then some c.value else none

/-- The parts of `ResolvedSnapshotState` that a layer changes. -/
structure StagedSnapshot (H L : Type) where
  queryLocalLayer : Option (Counted LayerBuilder) := none
  localMemory : Option (Counted (LocalLayerMemory L)) := none
  overlay : Counted (StagedOverlay L)
  cacheIdentity : H

/-- The staged snapshot in its world. -/
structure StageState (ω H L : Type) where
  world : ω
  staged : StagedSnapshot H L

/-- A computation on the world alone. -/
def onWorld {ω H L α : Type} (x : EStateM StorageError ω α) :
    EStateM StorageError (StageState ω H L) α := fun s =>
  match x s.world with
  | .ok a w => .ok a { s with world := w }
  | .error e w => .error e { s with world := w }

/-- `insert_entries` into each section of a layer. -/
def LayerBuilder.insertLayer (layer entries : LayerBuilder) : LayerBuilder where
  nodes := insertEntries layer.nodes entries.nodes
  labels := insertEntries layer.labels entries.labels
  relationships := insertEntries layer.relationships entries.relationships
  properties := insertEntries layer.properties entries.properties

/-- The slots a lease is retained for: those the overlay has not seen. -/
def StagedOverlay.has {L : Type} (o : StagedOverlay L) : LocalSlot → Bool
  | .node id => o.nodes.contains id
  | .label n l => o.labels.contains (n, l)
  | .relationship id => o.relationships.contains id
  | .property slot => o.properties.contains slot

/-- `publish_overlay`: a lease of a property goes with it, another is kept where the overlay gains
    an entry. -/
def StagedOverlay.publish {L : Type} (o : StagedOverlay L) (delta : PreparedLayer L) :
    StagedOverlay L :=
  let kept := delta.memory.toList.filter fun e => match e.1 with
    | .property _ => false
    | slot => !o.has slot
  let leases := delta.memory.toList.filterMap fun e => match e.1 with
    | .property slot => some (slot, [e.2])
    | _ => none
  { toSnapshotOverlay := o.toSnapshotOverlay.apply delta.layer
    propertyMemory := leases.foldl (fun memory e => memory.insert e.1 e.2) o.propertyMemory
    structureMemory := o.structureMemory ++ kept.map Prod.snd }

section Publish

variable {ω H L : Type} (b : Budget ω L)

def prepareSharedLocal (staged : StagedSnapshot H L) :
    EStateM StorageError ω (Option (PreparedLayer L)) :=
  match staged.queryLocalLayer with
  | none => pure none
  | some localLayer =>
    let sharedMemory := staged.localMemory.any fun memory => 1 < memory.strong
    if 1 < localLayer.strong ∨ sharedMemory then do
      let copy ← b.prepareLayer localLayer.value false
      pure (some copy)
    else pure none

/-- The copy of an overlay that another snapshot holds, too. -/
def prepareSharedOverlay (overlay : Counted (StagedOverlay L)) :
    EStateM StorageError ω (Option (StagedOverlay L)) :=
  if 1 < overlay.strong then do
    let copy ← b.cloneObserved overlay.value
    pure (some copy)
  else pure none

/-- The copies `publish_local` puts in place, where there are any. -/
def StagedSnapshot.withCopy (staged : StagedSnapshot H L) :
    Option (PreparedLayer L) → StagedSnapshot H L
  | some copy => { staged with queryLocalLayer := some (.new copy.layer)
                               localMemory := some (.new copy.memory) }
  | none => staged

def publishLocal (copy : Option (PreparedLayer L)) (delta : PreparedLayer L) :
    EStateM StorageError (StageState ω H L) Unit := do
  writing fun s => { s with staged := s.staged.withCopy copy }
  writing fun s => { s with staged := { s.staged with
    queryLocalLayer := some (s.staged.queryLocalLayer.getD (.new {}))
    localMemory := some (s.staged.localMemory.getD (.new ∅)) } }
  let localLayer ← reading fun s => match s.staged.queryLocalLayer.bind Counted.getMut with
    | some layer => .ok layer
    | none => .error (.corrupt "staged local Layer remained shared")
  let memory ← reading fun s => match s.staged.localMemory.bind Counted.getMut with
    | some memory => .ok memory
    | none => .error (.corrupt "staged local leases remained shared")
  writing fun s => { s with staged := { s.staged with
    queryLocalLayer := some (.new (localLayer.insertLayer delta.layer))
    localMemory := some (.new (insertEntries memory delta.memory)) } }

def applyLayerChecked (hash : Bytes → H) (advance : H → H → H) (layer : LayerBuilder) :
    EStateM StorageError (StageState ω H L) Unit := do
  let localDelta ← onWorld (b.prepareLayer layer false)
  let overlayDelta ← onWorld (b.prepareLayer layer true)
  let staged ← reading fun s => .ok s.staged
  let localCopy ← onWorld (prepareSharedLocal b staged)
  let overlayCopy ← onWorld (prepareSharedOverlay b staged.overlay)
  let layerBytes ← onWorld (b.layerMemoryBytes layer)
  let hashBytes ← onWorld (lifted (b.checkedMul layerBytes 4))
  let _ ← onWorld (b.reserve hashBytes)
  let layerHash ← onWorld (b.contentHashChecked hash layer)
  onWorld b.check
  publishLocal localCopy localDelta
  writing fun s => { s with staged := { s.staged with
    overlay := (overlayCopy.map Counted.new).getD s.staged.overlay } }
  let overlay ← reading fun s => match s.staged.overlay.getMut with
    | some overlay => .ok overlay
    | none => .error (.corrupt "staged overlay remained shared")
  writing fun s => { s with staged := { s.staged with
    overlay := .new (overlay.publish overlayDelta)
    cacheIdentity := advance s.staged.cacheIdentity layerHash } }

end Publish

/-! ## 4. What the fallible part makes -/

namespace Budget

variable {ω L : Type} (b : Budget ω L)

mutual

theorem cloneValueChecked_yields :
    ∀ value, Yields (b.cloneValueChecked value) fun output => output = value
  | .list values => by
      unfold cloneValueChecked
      refine (yields_any _).bind fun _ _ => ?_
      refine (cloneValuesChecked_yields values).bind fun output houtput => ?_
      exact yields_pure (by rw [houtput])
  | .boolean _ | .integer _ | .float _ | .string _ | .date _ | .localTime _ | .time _ _
  | .localDateTime _ _ | .zonedDateTime _ | .duration _ _ _ _ | .point _ | .vector _ | .uuid _ => by
      unfold cloneValueChecked
      exact (yields_any _).bind fun _ _ => yields_pure rfl

theorem cloneValuesChecked_yields :
    ∀ values, Yields (b.cloneValuesChecked values) fun output => output = values
  | [] => yields_pure rfl
  | value :: values => by
      unfold cloneValuesChecked
      refine (cloneValueChecked_yields value).bind fun v hv => ?_
      refine (cloneValuesChecked_yields values).bind fun vs hvs => ?_
      exact yields_pure (by rw [hv, hvs])

end

theorem cloneDelta_yields (delta : PropertyDelta) :
    Yields (b.cloneDelta delta) fun output => output = delta := by
  obtain ⟨op, value⟩ := delta
  unfold cloneDelta
  cases value with
  | none => exact yields_pure rfl
  | some value =>
    refine (b.cloneValueChecked_yields value).bind fun output houtput => ?_
    exact yields_pure (by rw [houtput])

theorem foldl_insert_empty {K V : Type} [Ord K] [TransOrd K] [LawfulEqOrd K] [DecidableEq K]
    (entries : ExtTreeMap K V) :
    entries.toList.foldl (fun output e => output.insert e.1 e.2) (∅ : ExtTreeMap K V) =
      entries := by
  have h := insertEntries_empty entries
  unfold insertEntries at h
  rwa [ExtTreeMap.foldl_eq_foldl_toList] at h

theorem cloneEntries_yields {K V : Type} [Ord K] [TransOrd K] [LawfulEqOrd K] [DecidableEq K]
    (entries : ExtTreeMap K V) :
    Yields (b.cloneEntries entries) fun output => output = entries := by
  unfold cloneEntries
  refine (Yields.foldlM id (fun output e => output.insert e.1 e.2) (fun output e _ => ?_) ∅).mono
    fun output houtput => houtput.trans (foldl_insert_empty entries)
  exact (yields_any _).bind fun _ _ => yields_pure rfl

/-- **A cloned layer is the layer.** -/
theorem cloneLayerChecked_yields (layer : LayerBuilder) :
    Yields (b.cloneLayerChecked layer) fun output => output = layer := by
  unfold cloneLayerChecked
  refine (b.cloneEntries_yields layer.nodes).bind fun nodes hnodes => ?_
  refine (b.cloneEntries_yields layer.labels).bind fun labels hlabels => ?_
  refine (b.cloneEntries_yields layer.relationships).bind fun relationships hrelationships => ?_
  refine (Yields.foldlM id (fun output e => output.insert e.1 e.2) (fun output e _ => ?_) ∅).bind
    fun properties hproperties => yields_pure ?_
  · refine (yields_any _).bind fun _ _ => (b.cloneDelta_yields e.2).bind fun delta hdelta => ?_
    exact yields_pure (by rw [hdelta]; rfl)
  have hproperties' : properties = layer.properties :=
    hproperties.trans (foldl_insert_empty layer.properties)
  rw [hnodes, hlabels, hrelationships, hproperties']

theorem prepareLayer_yields (layer : LayerBuilder) (overlay : Bool) :
    Yields (b.prepareLayer layer overlay) fun prepared => prepared.layer = layer := by
  unfold prepareLayer
  refine (yields_any _).bind fun _ _ => (yields_any _).bind fun _ _ => ?_
  exact (b.cloneLayerChecked_yields layer).bind fun output houtput => yields_pure houtput

variable (o : StagedOverlay L)

theorem retainStructure_yields (slot : LocalSlot) :
    Yields (b.retainStructure o slot) fun output =>
      output.toSnapshotOverlay = o.toSnapshotOverlay := by
  unfold retainStructure
  refine (yields_any _).bind fun _ _ => (yields_any _).bind fun _ _ => ?_
  refine (yields_any _).bind fun lease _ => ?_
  cases lease <;> exact yields_pure rfl

theorem retained_yields (slot : LocalSlot) (known : Bool) :
    Yields (b.retained o slot known) fun output =>
      output.toSnapshotOverlay = o.toSnapshotOverlay :=
  yields_ite (yields_pure rfl) (b.retainStructure_yields o slot)

theorem insertNodeObserved_yields (id : NodeId) (op : DeltaOp) :
    Yields (b.insertNodeObserved o id op) fun output =>
      output.toSnapshotOverlay = o.toSnapshotOverlay.insertNode id op := by
  unfold insertNodeObserved
  refine (yields_any _).bind fun _ _ => (b.retained_yields o _ _).bind fun o ho => ?_
  exact yields_pure (by rw [ho])

theorem insertLabelObserved_yields (row : NodeId × LabelId) (op : DeltaOp) :
    Yields (b.insertLabelObserved o row op) fun output =>
      output.toSnapshotOverlay = o.toSnapshotOverlay.insertLabel row op := by
  unfold insertLabelObserved
  refine (yields_any _).bind fun _ _ => (b.retained_yields o _ _).bind fun o ho => ?_
  exact yields_pure (by rw [ho])

theorem insertRelationshipObserved_yields (id : RelationshipId)
    (delta : RelationshipDelta) : Yields (b.insertRelationshipObserved o id delta) fun output =>
      output.toSnapshotOverlay = o.toSnapshotOverlay.applyRelationshipDelta id delta := by
  unfold insertRelationshipObserved
  refine (yields_any _).bind fun _ _ => (b.retained_yields o _ _).bind fun o ho => ?_
  exact yields_pure (by rw [ho])

theorem insertPropertyObserved_yields (slot : PropertySlot)
    (delta : PropertyDelta) (memory : Option L) :
    Yields (b.insertPropertyObserved o slot delta memory) fun output =>
      output.toSnapshotOverlay = o.toSnapshotOverlay.insertProperty slot delta := by
  unfold insertPropertyObserved
  refine (yields_any _).bind fun _ _ => (yields_any _).bind fun _ _ => ?_
  refine (yields_any _).bind fun entry _ => ?_
  exact yields_ite (yields_pure rfl) (yields_pure rfl)

theorem clonePropertyObserved_yields (slot : PropertySlot)
    (delta : PropertyDelta) : Yields (b.clonePropertyObserved o slot delta) fun output =>
      output.toSnapshotOverlay = o.toSnapshotOverlay.insertProperty slot delta := by
  unfold clonePropertyObserved
  refine (yields_any _).bind fun memory _ => ?_
  refine (b.cloneDelta_yields delta).bind fun output houtput => ?_
  rw [houtput]
  exact b.insertPropertyObserved_yields o slot delta memory

/-- **A cloned overlay has the tables and views of `clone_observed`.** -/
theorem cloneObserved_yields :
    Yields (b.cloneObserved o) fun output =>
      output.toSnapshotOverlay = o.toSnapshotOverlay.cloneObserved := by
  unfold cloneObserved
  refine (Yields.foldlM StagedOverlay.toSnapshotOverlay (fun o e => o.insertNode e.1 e.2)
    (fun o e _ => b.insertNodeObserved_yields o e.1 e.2) {}).bind fun o₁ h₁ => ?_
  refine (Yields.foldlM StagedOverlay.toSnapshotOverlay (fun o e => o.insertLabel e.1 e.2)
    (fun o e _ => b.insertLabelObserved_yields o e.1 e.2) o₁).bind fun o₂ h₂ => ?_
  refine (Yields.foldlM StagedOverlay.toSnapshotOverlay
    (fun o e => o.applyRelationshipDelta e.1 e.2)
    (fun o e _ => b.insertRelationshipObserved_yields o e.1 e.2) o₂).bind fun o₃ h₃ => ?_
  refine (Yields.foldlM StagedOverlay.toSnapshotOverlay (fun o e => o.insertProperty e.1 e.2)
    (fun o e _ => b.clonePropertyObserved_yields o e.1 e.2) o₃).mono fun o₄ h₄ => ?_
  rw [h₄, h₃, h₂, h₁]
  unfold SnapshotOverlay.cloneObserved SnapshotOverlay.apply
  simp only [ExtTreeMap.foldl_eq_foldl_toList]
  rfl

theorem contentHashChecked_yields {H : Type} (hash : Bytes → H) (layer : LayerBuilder) :
    Yields (b.contentHashChecked hash layer) fun h =>
      ∃ bytes, layer.hashedBytes = .ok bytes ∧ h = hash bytes := by
  unfold contentHashChecked
  refine (yields_any _).bind fun _ _ => (yields_any _).bind fun _ _ => ?_
  refine (yields_any _).bind fun _ _ => (yields_any _).bind fun _ _ => ?_
  have hbytes : Yields (lifted layer.hashedBytes : EStateM StorageError ω Bytes) fun bytes =>
      layer.hashedBytes = .ok bytes := by
    intro s bytes t h
    exact (lifted_ok.mp h).1
  exact hbytes.bind fun bytes h => yields_pure ⟨bytes, h, rfl⟩

end Budget

/-! ## 5. All of a layer, or nothing -/

/-- What a staged snapshot keeps: leases only of a local layer, and every reference held at least
    by itself. -/
structure StagedSnapshot.Owned {H L : Type} (staged : StagedSnapshot H L) : Prop where
  memory : staged.queryLocalLayer = none → staged.localMemory = none
  localCount : ∀ l, staged.queryLocalLayer = some l → 1 ≤ l.strong
  memoryCount : ∀ m, staged.localMemory = some m → 1 ≤ m.strong
  overlayCount : 1 ≤ staged.overlay.strong

/-- The layer staged so far. -/
def StagedSnapshot.localLayer {H L : Type} (staged : StagedSnapshot H L) : LayerBuilder :=
  (staged.queryLocalLayer.map Counted.value).getD {}

/-- The overlay, without its leases. -/
def StagedSnapshot.views {H L : Type} (staged : StagedSnapshot H L) : SnapshotOverlay :=
  staged.overlay.value.toSnapshotOverlay

/-- All that is made before the first write. -/
structure Prepared (H L : Type) where
  localDelta : PreparedLayer L
  overlayDelta : PreparedLayer L
  localCopy : Option (PreparedLayer L)
  overlayCopy : Option (StagedOverlay L)
  layerHash : H

section Phases

variable {ω H L : Type} (b : Budget ω L) (hash : Bytes → H) (advance : H → H → H)
  (layer : LayerBuilder)

/-- The first part of `apply_layer_checked`: everything that can fail. -/
def prepareAll : EStateM StorageError (StageState ω H L) (Prepared H L) := do
  let localDelta ← onWorld (b.prepareLayer layer false)
  let overlayDelta ← onWorld (b.prepareLayer layer true)
  let staged ← reading fun s => .ok s.staged
  let localCopy ← onWorld (prepareSharedLocal b staged)
  let overlayCopy ← onWorld (prepareSharedOverlay b staged.overlay)
  let layerBytes ← onWorld (b.layerMemoryBytes layer)
  let hashBytes ← onWorld (lifted (b.checkedMul layerBytes 4))
  let _ ← onWorld (b.reserve hashBytes)
  let layerHash ← onWorld (b.contentHashChecked hash layer)
  onWorld b.check
  pure { localDelta, overlayDelta, localCopy, overlayCopy, layerHash }

/-- The second part: every write. -/
def publishAll (p : Prepared H L) : EStateM StorageError (StageState ω H L) Unit := do
  publishLocal p.localCopy p.localDelta
  writing fun s => { s with staged := { s.staged with
    overlay := (p.overlayCopy.map Counted.new).getD s.staged.overlay } }
  let overlay ← reading fun s => match s.staged.overlay.getMut with
    | some overlay => .ok overlay
    | none => .error (.corrupt "staged overlay remained shared")
  writing fun s => { s with staged := { s.staged with
    overlay := .new (overlay.publish p.overlayDelta)
    cacheIdentity := advance s.staged.cacheIdentity p.layerHash } }

theorem applyLayerChecked_eq : applyLayerChecked b hash advance layer =
    prepareAll b hash layer >>= publishAll advance := by
  unfold applyLayerChecked prepareAll publishAll
  simp only [bind_assoc, pure_bind]

theorem onWorld_ok {α : Type} {x : EStateM StorageError ω α} {s t : StageState ω H L} {a : α} :
    onWorld x s = .ok a t ↔ ∃ w, x s.world = .ok a w ∧ t = { s with world := w } := by
  unfold onWorld
  cases hx : x s.world with
  | ok a' w =>
    simp only [EStateM.Result.ok.injEq]
    constructor
    · intro h
      exact ⟨w, ⟨h.1, rfl⟩, h.2.symm⟩
    · intro h
      obtain ⟨w', ⟨ha, hw⟩, ht⟩ := h
      rw [ht, ha, hw]
      exact ⟨rfl, rfl⟩
  | error e w => simp

theorem frames_onWorld {α : Type} (x : EStateM StorageError ω α) :
    Frames StageState.staged (onWorld x : EStateM StorageError (StageState ω H L) α) := by
  intro s
  unfold onWorld
  cases x s.world <;> rfl

/-- **The fallible part writes nothing.** -/
theorem frames_prepareAll :
    Frames StageState.staged (prepareAll b hash layer : EStateM _ (StageState ω H L) _) := by
  unfold prepareAll
  refine (frames_onWorld _).bind fun _ => (frames_onWorld _).bind fun _ => ?_
  refine (frames_reading _).bind fun _ => (frames_onWorld _).bind fun _ => ?_
  refine (frames_onWorld _).bind fun _ => (frames_onWorld _).bind fun _ => ?_
  refine (frames_onWorld _).bind fun _ => (frames_onWorld _).bind fun _ => ?_
  exact (frames_onWorld _).bind fun _ => (frames_onWorld _).bind fun _ => frames_pure _

/-- What is prepared fits the snapshot: a copy stands where a reference is shared. -/
structure Fits (staged : StagedSnapshot H L) (p : Prepared H L) : Prop where
  localDelta : p.localDelta.layer = layer
  overlayDelta : p.overlayDelta.layer = layer
  localUnshared : p.localCopy = none → (∀ l, staged.queryLocalLayer = some l → l.strong = 1) ∧
    ∀ m, staged.localMemory = some m → m.strong = 1
  localCopied : ∀ c, p.localCopy = some c → ∃ l, staged.queryLocalLayer = some l ∧ c.layer = l.value
  overlayUnshared : p.overlayCopy = none → staged.overlay.strong = 1
  overlayCopied : ∀ o, p.overlayCopy = some o → o.toSnapshotOverlay = staged.views
  layerHash : ∃ bytes, layer.hashedBytes = .ok bytes ∧ p.layerHash = hash bytes

theorem prepareSharedLocal_yields {staged : StagedSnapshot H L} (hs : staged.Owned) :
    Yields (prepareSharedLocal b staged) fun copy =>
      (copy = none → (∀ l, staged.queryLocalLayer = some l → l.strong = 1) ∧
        ∀ m, staged.localMemory = some m → m.strong = 1) ∧
      ∀ c, copy = some c → ∃ l, staged.queryLocalLayer = some l ∧ c.layer = l.value := by
  unfold prepareSharedLocal
  cases hlocal : staged.queryLocalLayer with
  | none =>
    refine yields_pure ⟨fun _ => ⟨fun l hl => ?_, fun m hm => ?_⟩, fun c hc => ?_⟩
    · cases hl
    · rw [hs.memory hlocal] at hm
      cases hm
    · cases hc
  | some l =>
    simp only
    split
    · refine (b.prepareLayer_yields l.value false).bind fun copy hcopy => yields_pure ?_
      refine ⟨fun hnone => ?_, fun c hc => ?_⟩
      · cases hnone
      · cases hc
        exact ⟨l, rfl, hcopy⟩
    · rename_i hunshared
      refine yields_pure ⟨fun _ => ⟨fun l' hl' => ?_, fun m hm => ?_⟩, fun c hc => ?_⟩
      · cases hl'
        have hone := hs.localCount l hlocal
        omega
      · have hone := hs.memoryCount m hm
        rw [hm] at hunshared
        simp only [Option.any_some, decide_eq_true_eq] at hunshared
        omega
      · cases hc

theorem prepareSharedOverlay_yields {staged : StagedSnapshot H L} (hs : staged.Owned)
    (hviewed : staged.views.Viewed) :
    Yields (prepareSharedOverlay b staged.overlay) fun copy =>
      (copy = none → staged.overlay.strong = 1) ∧
      ∀ o, copy = some o → o.toSnapshotOverlay = staged.views := by
  unfold prepareSharedOverlay
  split
  · refine (b.cloneObserved_yields staged.overlay.value).bind fun copy hcopy => yields_pure ?_
    refine ⟨fun hnone => ?_, fun o ho => ?_⟩
    · cases hnone
    · cases ho
      exact hcopy.trans (SnapshotOverlay.cloneObserved_eq hviewed)
  · refine yields_pure ⟨fun _ => ?_, fun o ho => ?_⟩
    · have hone := hs.overlayCount
      omega
    · cases ho

variable {p : Prepared H L} {s : StageState ω H L}

/-- **What the fallible part makes.** -/
theorem prepared {s t : StageState ω H L} (hs : s.staged.Owned) (hviewed : s.staged.views.Viewed)
    (h : prepareAll b hash layer s = .ok p t) :
    t.staged = s.staged ∧ Fits hash layer s.staged p := by
  refine ⟨(frames_prepareAll b hash layer).ok h, ?_⟩
  unfold prepareAll at h
  obtain ⟨localDelta, s₁, h₁, h⟩ := tx_bind_ok.mp h
  obtain ⟨overlayDelta, s₂, h₂, h⟩ := tx_bind_ok.mp h
  obtain ⟨staged, s₃, h₃, h⟩ := tx_bind_ok.mp h
  obtain ⟨localCopy, s₄, h₄, h⟩ := tx_bind_ok.mp h
  obtain ⟨overlayCopy, s₅, h₅, h⟩ := tx_bind_ok.mp h
  obtain ⟨_, s₆, _, h⟩ := tx_bind_ok.mp h
  obtain ⟨_, s₇, _, h⟩ := tx_bind_ok.mp h
  obtain ⟨_, s₇', _, h⟩ := tx_bind_ok.mp h
  obtain ⟨layerHash, s₈, h₈, h⟩ := tx_bind_ok.mp h
  obtain ⟨_, s₉, _, h⟩ := tx_bind_ok.mp h
  cases h
  obtain ⟨w₁, h₁, e₁⟩ := onWorld_ok.mp h₁
  obtain ⟨w₂, h₂, e₂⟩ := onWorld_ok.mp h₂
  obtain ⟨w₄, h₄, _⟩ := onWorld_ok.mp h₄
  obtain ⟨w₅, h₅, _⟩ := onWorld_ok.mp h₅
  obtain ⟨w₈, h₈, _⟩ := onWorld_ok.mp h₈
  have hstaged : staged = s.staged := by
    have hread := (reading_ok.mp h₃).1
    rw [e₂, e₁] at hread
    exact (Except.ok.inj hread).symm
  rw [hstaged] at h₄ h₅
  obtain ⟨hunshared, hcopied⟩ := prepareSharedLocal_yields b hs _ _ _ h₄
  obtain ⟨hoverlay, hoverlayCopied⟩ := prepareSharedOverlay_yields b hs hviewed _ _ _ h₅
  exact ⟨b.prepareLayer_yields layer false _ _ _ h₁, b.prepareLayer_yields layer true _ _ _ h₂,
    hunshared, hcopied, hoverlay, hoverlayCopied,
    b.contentHashChecked_yields hash layer _ _ _ h₈⟩

/-- What the snapshot is after a layer. -/
structure Applied (staged staged' : StagedSnapshot H L) : Prop where
  localLayer : staged'.localLayer = staged.localLayer.insertLayer layer
  views : staged'.views = staged.views.apply layer
  cacheIdentity : ∃ bytes, layer.hashedBytes = .ok bytes ∧
    staged'.cacheIdentity = advance staged.cacheIdentity (hash bytes)
  owned : staged'.Owned

theorem publishLocal_ok (h : Fits hash layer s.staged p) : ∃ memory,
      publishLocal p.localCopy p.localDelta s = .ok () { s with staged := { s.staged with
        queryLocalLayer := some (.new (s.staged.localLayer.insertLayer layer))
        localMemory := some (.new memory) } } := by
  unfold publishLocal
  cases hcopy : p.localCopy with
  | some c =>
    obtain ⟨l, hl, hc⟩ := h.localCopied c hcopy
    refine ⟨insertEntries c.memory p.localDelta.memory, ?_⟩
    have hlayer : s.staged.localLayer = c.layer := by
      unfold StagedSnapshot.localLayer
      rw [hl, hc]
      rfl
    rw [hlayer, ← h.localDelta]
    rfl
  | none =>
    obtain ⟨hlocal, hmemory⟩ := h.localUnshared hcopy
    refine ⟨insertEntries ((s.staged.localMemory.map Counted.value).getD ∅) p.localDelta.memory, ?_⟩
    rw [← h.localDelta]
    -- each reference is there and held once, or is new
    have hgetLocal : ((some (s.staged.queryLocalLayer.getD (.new {}))).bind Counted.getMut) =
        some s.staged.localLayer := by
      unfold StagedSnapshot.localLayer
      cases hl : s.staged.queryLocalLayer with
      | none => rfl
      | some l =>
        show Counted.getMut l = some l.value
        unfold Counted.getMut
        rw [if_pos (hlocal l hl)]
    have hgetMemory : ((some (s.staged.localMemory.getD (.new ∅))).bind Counted.getMut) =
        some ((s.staged.localMemory.map Counted.value).getD ∅) := by
      cases hm : s.staged.localMemory with
      | none => rfl
      | some m =>
        show Counted.getMut m = some m.value
        unfold Counted.getMut
        rw [if_pos (hmemory m hm)]
    refine tx_bind_ok.mpr ⟨(), _, rfl, tx_bind_ok.mpr ⟨(), _, rfl, ?_⟩⟩
    refine tx_bind_ok.mpr ⟨s.staged.localLayer, _, reading_ok.mpr ⟨?_, rfl⟩, ?_⟩
    · simp only [StagedSnapshot.withCopy]
      rw [hgetLocal]
    refine tx_bind_ok.mpr ⟨(s.staged.localMemory.map Counted.value).getD ∅, _,
      reading_ok.mpr ⟨?_, rfl⟩, rfl⟩
    simp only [StagedSnapshot.withCopy]
    rw [hgetMemory]

/-- **Once everything is prepared the writes succeed.** -/
theorem publishAll_ok (h : Fits hash layer s.staged p) :
    ∃ t, publishAll advance p s = .ok () t ∧ Applied hash advance layer s.staged t.staged := by
  obtain ⟨memory, hlocal⟩ := publishLocal_ok hash layer h
  obtain ⟨bytes, hbytes, hhash⟩ := h.layerHash
  have hone : ((p.overlayCopy.map Counted.new).getD s.staged.overlay).strong = 1 := by
    cases hcopy : p.overlayCopy with
    | none => exact h.overlayUnshared hcopy
    | some o => rfl
  have hviews : ((p.overlayCopy.map Counted.new).getD s.staged.overlay).value.toSnapshotOverlay =
      s.staged.views := by
    cases hcopy : p.overlayCopy with
    | none => rfl
    | some o => exact h.overlayCopied o hcopy
  refine ⟨{ s with staged := {
    queryLocalLayer := some (.new (s.staged.localLayer.insertLayer layer))
    localMemory := some (.new memory)
    overlay := .new (((p.overlayCopy.map Counted.new).getD s.staged.overlay).value.publish
      p.overlayDelta)
    cacheIdentity := advance s.staged.cacheIdentity p.layerHash } }, ?_, ?_⟩
  · unfold publishAll
    refine tx_bind_ok.mpr ⟨(), _, hlocal, tx_bind_ok.mpr ⟨(), _, rfl, ?_⟩⟩
    refine tx_bind_ok.mpr ⟨((p.overlayCopy.map Counted.new).getD s.staged.overlay).value, _,
      reading_ok.mpr ⟨?_, rfl⟩, rfl⟩
    unfold Counted.getMut
    rw [if_pos hone]
  · refine ⟨rfl, ?_, ⟨bytes, hbytes, ?_⟩, ?_⟩
    · show (StagedOverlay.publish _ p.overlayDelta).toSnapshotOverlay = _
      unfold StagedOverlay.publish
      rw [hviews, h.overlayDelta]
    · show advance s.staged.cacheIdentity p.layerHash = _
      rw [hhash]
    · refine ⟨fun hnone => ?_, fun l hl => ?_, fun m hm => ?_, Nat.le_refl 1⟩
      · cases hnone
      · cases hl
        exact Nat.le_refl 1
      · cases hm
        exact Nat.le_refl 1

/-- **A layer is applied as a whole, or the snapshot is as it was.** -/
theorem applyLayerChecked_all (hs : s.staged.Owned) (hviewed : s.staged.views.Viewed) :
    match applyLayerChecked b hash advance layer s with
    | .ok _ t => Applied hash advance layer s.staged t.staged
    | .error _ t => t.staged = s.staged := by
  rw [applyLayerChecked_eq]
  split
  · rename_i t happly
    obtain ⟨p, s', hprepare, hpublish⟩ := tx_bind_ok.mp happly
    obtain ⟨hstaged, hfits⟩ := prepared b hash layer hs hviewed hprepare
    rw [← hstaged] at hfits ⊢
    obtain ⟨t', hpublish', happlied⟩ := publishAll_ok hash advance layer hfits
    rw [hpublish'] at hpublish
    cases hpublish
    exact happlied
  · rename_i e t happly
    rcases tx_bind_err.mp happly with hprepare | ⟨p, s', hprepare, hpublish⟩
    · exact (frames_prepareAll b hash layer).error hprepare
    · -- the writes do not fail
      obtain ⟨hstaged, hfits⟩ := prepared b hash layer hs hviewed hprepare
      rw [← hstaged] at hfits
      obtain ⟨t', hpublish', _⟩ := publishAll_ok hash advance layer hfits
      rw [hpublish'] at hpublish
      cases hpublish

end Phases

end Lithograph.Storage
