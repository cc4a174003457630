/-
  File:      Lithograph/Storage/LayerRows.lean
  Subject:   A layer as rows, and what is read back from them (`storage/layer.rs`,
             `storage/layer_read.rs`).

  Left out: the index columns, the largest identifiers the integrity check collects, and memory.

  * `loadLayer_persisted`: the layer is loaded from its rows.
-/
import Lithograph.Storage.Layer
import Lithograph.Storage.PropertyColumns

namespace Lithograph.Storage

open Std Library

/-! ## 1. Rows -/

def DeltaOp.fromI64 (value : Int) : StorageResult DeltaOp :=
  match value with
  | 1 => .ok .add
  | 2 => .ok .remove
  | _ => .error (.corrupt ("invalid delta operation " ++ toString value))

@[simp] theorem DeltaOp.fromI64_toInt (op : DeltaOp) : DeltaOp.fromI64 op.toInt = .ok op := by
  cases op <;> rfl

/-- One row of `_lithograph_property_delta`; a removal leaves every value column NULL. -/
structure PropertyRow where
  op : Int
  typeTag : Option Int := none
  payload : PropertyPayload := {}

/-- The rows of one layer, under their primary keys. The owner kind is one of its two numbers, as
    the table checks. -/
structure LayerRows where
  nodes : ExtTreeMap NodeId Int := ∅
  labels : ExtTreeMap (NodeId × LabelId) Int := ∅
  relationships : ExtTreeMap RelationshipId (RelationshipRecord × Int) := ∅
  properties : ExtTreeMap PropertySlot PropertyRow := ∅

/-- The row of a property change, as it is read again. -/
def PropertyRow.ofDelta (real : RealColumn) (delta : PropertyDelta) : StorageResult PropertyRow :=
  match delta.value with
  | none => .ok { op := delta.op.toInt }
  | some value => do
    let columns ← PropertyColumns.fromValue value
    pure { op := delta.op.toInt
           typeTag := some columns.typeTag
           payload := (columns.kept real).toPropertyPayload }

def PropertyRow.ensureRemovePayloadIsEmpty (row : PropertyRow) : StorageResult Unit :=
  corruptWhen (row.typeTag.isSome || row.payload.intValue.isSome || row.payload.realValue.isSome ||
      row.payload.textValue.isSome || row.payload.blobValue.isSome || row.payload.auxValue.isSome)
    "removed property row must not retain a typed payload"

/-- The type tag a set property needs. -/
def PropertyRow.requiredTag (row : PropertyRow) : StorageResult Int :=
  match row.typeTag with
  | some tag => .ok tag
  | none => .error (.corrupt "set property row is missing type tag")

/-- `property_delta_from_row_observed`. -/
def PropertyRow.toDelta (row : PropertyRow) : StorageResult PropertyDelta := do
  match ← DeltaOp.fromI64 row.op with
  | .remove => do
    row.ensureRemovePayloadIsEmpty
    pure ⟨.remove, none⟩
  | .add => do
    let tag ← row.requiredTag
    let value ← PropertyColumns.toValue { toPropertyPayload := row.payload, typeTag := tag }
    pure ⟨.add, some value⟩

namespace LayerRows

/-! ## 2. Writing -/

/-- `persist_relationship_deltas`: a row stands under the id of its record. -/
def persistRelationship (rows : ExtTreeMap RelationshipId (RelationshipRecord × Int))
    (_ : RelationshipId) (delta : RelationshipDelta) :
    ExtTreeMap RelationshipId (RelationshipRecord × Int) :=
  rows.insert delta.record.id (delta.record, delta.op.toInt)

/-- One round of `persist_property_deltas`. -/
def persistProperty (real : RealColumn) (rows : ExtTreeMap PropertySlot PropertyRow)
    (slot : PropertySlot) (delta : PropertyDelta) :
    StorageResult (ExtTreeMap PropertySlot PropertyRow) := do
  let row ← PropertyRow.ofDelta real delta
  pure (rows.insert slot row)

/-- The INSERTs of `persist_layer`: the layer id is new, so they meet no row. -/
def ofLayer (real : RealColumn) (layer : LayerBuilder) : StorageResult LayerRows := do
  let properties ← layer.properties.foldlM (persistProperty real) ∅
  pure { nodes := layer.nodes.map fun _ op => op.toInt
         labels := layer.labels.map fun _ op => op.toInt
         relationships := layer.relationships.foldl persistRelationship ∅
         properties := properties }

/-! ## 3. Reading -/

section Visit

variable {σ : Type}

/-- `visit_node_deltas`. -/
def visitNodes (rows : LayerRows) (visitor : σ → NodeId → DeltaOp → StorageResult σ) (s : σ) :
    StorageResult σ :=
  rows.nodes.toList.foldlM (fun s row => do
    let op ← DeltaOp.fromI64 row.2
    visitor s row.1 op) s

/-- `visit_label_deltas`. -/
def visitLabels (rows : LayerRows) (visitor : σ → NodeId × LabelId → DeltaOp → StorageResult σ)
    (s : σ) : StorageResult σ :=
  rows.labels.toList.foldlM (fun s row => do
    let op ← DeltaOp.fromI64 row.2
    visitor s row.1 op) s

/-- `visit_relationship_deltas`. -/
def visitRelationships (rows : LayerRows)
    (visitor : σ → RelationshipDelta → StorageResult σ) (s : σ) : StorageResult σ :=
  rows.relationships.toList.foldlM (fun s row => do
    let op ← DeltaOp.fromI64 row.2.2
    visitor s ⟨op, row.2.1⟩) s

/-- `visit_property_deltas`. -/
def visitProperties (rows : LayerRows)
    (visitor : σ → PropertySlot → PropertyDelta → StorageResult σ) (s : σ) : StorageResult σ :=
  rows.properties.toList.foldlM (fun s row => do
    let delta ← row.2.toDelta
    visitor s row.1 delta) s

end Visit

def loadLayer (rows : LayerRows) : StorageResult LayerBuilder := do
  let layer : LayerBuilder := {}
  let layer ← rows.visitNodes (fun l id op => pure { l with nodes := l.nodes.insert id op }) layer
  let layer ← rows.visitLabels
    (fun l row op => pure { l with labels := l.labels.insert row op }) layer
  let layer ← rows.visitRelationships (fun l delta => pure { l with
    relationships := l.relationships.insert delta.record.id delta }) layer
  rows.visitProperties (fun l slot delta => pure { l with
    properties := l.properties.insert slot delta }) layer

/-- The fields `stored_layer_integrity` feeds the hash, one for each row. -/
def storedFields (rows : LayerRows) : StorageResult (List Bytes) := do
  let fields ← rows.visitNodes
    (fun fields id op => pure (fields ++ [LayerBuilder.nodeRecord id op])) []
  let fields ← rows.visitLabels
    (fun fields row op => pure (fields ++ [LayerBuilder.labelRecord row.1 row.2 op])) fields
  let fields ← rows.visitRelationships
    (fun fields delta => pure (fields ++ [LayerBuilder.relationshipRecord delta])) fields
  rows.visitProperties (fun fields slot delta => do
    let field ← LayerBuilder.propertyRecord slot delta
    pure (fields ++ [field])) fields

/-- What `stored_layer_integrity` hashes: the domain, the number of rows, the fields. -/
def storedBytes (rows : LayerRows) : StorageResult Bytes := do
  let fields ← rows.storedFields
  pure (record "LAYER" fields)

/-! ## 4. Verifying -/

def layerMismatch (id : Int) : StorageError :=
  .corrupt ("Layer " ++ toString id ++ " does not match its persisted content hash")

def mismatchWhen (id : Int) (condition : Bool) : StorageResult Unit :=
  if condition then .error (layerMismatch id) else .ok ()

def requireSlotCount (id : Int) (actual expected : Nat) : StorageResult Unit :=
  mismatchWhen id (actual != expected)

def verifyStoredNodes (rows : LayerRows) (id : Int) (layer : LayerBuilder) :
    StorageResult Unit := do
  let count ← rows.visitNodes (fun count node op => do
    mismatchWhen id (decide (layer.nodes[node]? ≠ some op))
    pure (count + 1)) 0
  requireSlotCount id count layer.nodes.size

def verifyStoredLabels (rows : LayerRows) (id : Int) (layer : LayerBuilder) :
    StorageResult Unit := do
  let count ← rows.visitLabels (fun count row op => do
    mismatchWhen id (decide (layer.labels[row]? ≠ some op))
    pure (count + 1)) 0
  requireSlotCount id count layer.labels.size

def verifyStoredRelationships (rows : LayerRows) (id : Int) (layer : LayerBuilder) :
    StorageResult Unit := do
  let count ← rows.visitRelationships (fun count delta => do
    mismatchWhen id (decide (layer.relationships[delta.record.id]? ≠ some delta))
    pure (count + 1)) 0
  requireSlotCount id count layer.relationships.size

/-- One row of `verify_stored_properties`. -/
def verifyProperty (id : Int) (layer : LayerBuilder) (count : Nat) (slot : PropertySlot)
    (delta : PropertyDelta) : StorageResult Nat :=
  match layer.properties[slot]? with
  | none => .error (layerMismatch id)
  | some expected =>
    if delta.op ≠ expected.op then .error (layerMismatch id)
    else do
      let equal ← propertyStatesEqual delta.value expected.value
      mismatchWhen id (!equal)
      pure (count + 1)

def verifyStoredProperties (rows : LayerRows) (id : Int) (layer : LayerBuilder) :
    StorageResult Unit := do
  let count ← rows.visitProperties (verifyProperty id layer) 0
  requireSlotCount id count layer.properties.size

def verifyExistingLayer (rows : LayerRows) (id : Int) (layer : LayerBuilder) :
    StorageResult Unit := do
  rows.verifyStoredNodes id layer
  rows.verifyStoredLabels id layer
  rows.verifyStoredRelationships id layer
  rows.verifyStoredProperties id layer

end LayerRows

/-! ## 5. Layers as this code builds them -/

/-- The change with its value in canonical form. -/
def PropertyDelta.canonical (delta : PropertyDelta) : PropertyDelta :=
  { delta with value := delta.value.map PropertyValue.canonical }

/-- The layer with its values in canonical form. -/
def LayerBuilder.canonical (layer : LayerBuilder) : LayerBuilder :=
  { layer with properties := layer.properties.map fun _ delta => delta.canonical }

/-- An identifier the constructors let through, in its machine type. -/
def IsId (id : Int) : Prop := 0 < id ∧ id < 2 ^ 63

/-- A property change the constructors make: a value to set, or nothing. -/
def PropertyDelta.Built (delta : PropertyDelta) : Prop :=
  (delta.op = .add ∧ ∃ v, delta.value = some v ∧ v.InRange) ∨
    (delta.op = .remove ∧ delta.value = none)

/-- What the constructors of a layer see to, over machine numbers. -/
structure LayerBuilder.Entered (l : LayerBuilder) : Prop where
  nodes : ∀ (id : NodeId) op, l.nodes[id]? = some op → IsId id
  labels : ∀ (row : NodeId × LabelId) op, l.labels[row]? = some op → IsId row.1 ∧ IsId row.2
  relationships : ∀ (id : RelationshipId) delta, l.relationships[id]? = some delta →
    delta.record.id = id ∧ IsId delta.record.id ∧ IsId delta.record.source ∧
      IsId delta.record.typeId ∧ IsId delta.record.target
  properties : ∀ (slot : PropertySlot) delta, l.properties[slot]? = some delta →
    IsId slot.2.1 ∧ IsId slot.2.2 ∧ delta.Built

/-- **A layer this code builds**: a `usize` counts its slots. -/
structure LayerBuilder.Built (l : LayerBuilder) : Prop extends l.Entered where
  counted : l.slotCount < 2 ^ 64

variable {delta : PropertyDelta}

/-! ## 6. Reading back what was written -/

namespace LayerRows

variable {real : RealColumn} {l : LayerBuilder} {rows : LayerRows}

theorem toDelta_ofDelta {row : PropertyRow} (hbuilt : delta.Built)
    (h : PropertyRow.ofDelta real delta = .ok row) : row.toDelta = .ok delta.canonical := by
  obtain ⟨op, value⟩ := delta
  rcases hbuilt with ⟨hop, v, hvalue, hrange⟩ | ⟨hop, hvalue⟩
  · cases hop
    cases hvalue
    obtain ⟨columns, hcolumns, h⟩ := bind_eq_ok.mp h
    cases h
    have hback := PropertyColumns.toValue_fromValue real hrange hcolumns
    have htag : columns.kept real = { toPropertyPayload := (columns.kept real).toPropertyPayload
                                      typeTag := columns.typeTag } := rfl
    rw [htag] at hback
    unfold PropertyRow.toDelta PropertyRow.requiredTag
    simp only [DeltaOp.fromI64_toInt, ok_bind, hback]
    rfl
  · cases hop
    cases hvalue
    cases h
    rfl

theorem relationships_ofLayer (hbuilt : l.Built) :
    l.relationships.foldl persistRelationship ∅ =
      l.relationships.map fun _ delta => (delta.record, delta.op.toInt) := by
  refine ExtTreeMap.ext_getElem? fun id => ?_
  have hstep : ∀ (rows : ExtTreeMap RelationshipId (RelationshipRecord × Int)) k delta,
      l.relationships[k]? = some delta → ∀ j, (persistRelationship rows k delta)[j]? =
        if j = k then some (delta.record, delta.op.toInt) else rows[j]? := by
    intro rows k delta hk j
    have hid : delta.record.id = k := (hbuilt.relationships k delta hk).1
    unfold persistRelationship
    rw [hid]
    exact lookup_insert rows k j _
  have hlook := foldl_lookup
    (fun (rows : ExtTreeMap RelationshipId (RelationshipRecord × Int)) j => rows[j]?)
    (fun _ (delta : RelationshipDelta) _ => some (delta.record, delta.op.toInt)) (s := ∅) hstep id
  rw [hlook, ExtTreeMap.getElem?_map]
  cases l.relationships[id]? <;> simp

/-- The row of a change; a change without a row stands for none. -/
def rowOf (real : RealColumn) (delta : PropertyDelta) : PropertyRow :=
  match PropertyRow.ofDelta real delta with
  | .ok row => row
  | .error _ => { op := 0 }

theorem properties_ofLayer {properties : ExtTreeMap PropertySlot PropertyRow}
    (h : l.properties.foldlM (persistProperty real) ∅ = .ok properties) :
    properties = l.properties.map (fun _ delta => rowOf real delta) ∧
      ∀ (slot : PropertySlot) delta, l.properties[slot]? = some delta →
        PropertyRow.ofDelta real delta = .ok (rowOf real delta) := by
  constructor
  · refine ExtTreeMap.ext_getElem? fun slot => ?_
    have hstep : ∀ (rows : ExtTreeMap PropertySlot PropertyRow) k delta rows',
        l.properties[k]? = some delta → persistProperty real rows k delta = .ok rows' →
          ∀ j, rows'[j]? = if j = k then some (rowOf real delta) else rows[j]? := by
      intro rows k delta rows' _ hstep j
      obtain ⟨row, hrow, hstep⟩ := bind_eq_ok.mp hstep
      cases hstep
      unfold rowOf
      rw [hrow]
      exact lookup_insert rows k j row
    have hlook := foldlM_lookup (fun (rows : ExtTreeMap PropertySlot PropertyRow) j => rows[j]?)
      (fun _ delta _ => some (rowOf real delta)) hstep h slot
    rw [hlook, ExtTreeMap.getElem?_map]
    cases l.properties[slot]? <;> simp
  · intro slot delta hslot
    rw [ExtTreeMap.foldlM_eq_foldlM_toList] at h
    obtain ⟨_, _, hstep⟩ := list_foldlM_each h (slot, delta) (mem_of_lookup hslot)
    obtain ⟨row, hrow, _⟩ := bind_eq_ok.mp hstep
    unfold rowOf
    rw [hrow]

theorem ofLayer_ok (hbuilt : l.Built) (h : ofLayer real l = .ok rows) :
    rows.nodes = l.nodes.map (fun _ op => op.toInt) ∧
    rows.labels = l.labels.map (fun _ op => op.toInt) ∧
    rows.relationships = l.relationships.map (fun _ delta => (delta.record, delta.op.toInt)) ∧
    rows.properties = l.properties.map (fun _ delta => rowOf real delta) ∧
      ∀ (slot : PropertySlot) delta, l.properties[slot]? = some delta →
        (rowOf real delta).toDelta = .ok delta.canonical := by
  obtain ⟨properties, hproperties, h⟩ := bind_eq_ok.mp h
  cases h
  obtain ⟨hrows, hrow⟩ := properties_ofLayer hproperties
  refine ⟨rfl, rfl, relationships_ofLayer hbuilt, hrows, fun slot delta hslot => ?_⟩
  exact toDelta_ofDelta (hbuilt.properties slot delta hslot).2.2 (hrow slot delta hslot)

section Persisted

variable {σ : Type} (hbuilt : l.Built) (h : ofLayer real l = .ok rows)

include hbuilt h

theorem visitNodes_persisted (visitor : σ → NodeId → DeltaOp → StorageResult σ) (s : σ) :
    rows.visitNodes visitor s = l.nodes.toList.foldlM (fun s e => visitor s e.1 e.2) s := by
  unfold visitNodes
  rw [(ofLayer_ok hbuilt h).1, ExtTreeMap.toList_map, List.foldlM_map]
  simp only [DeltaOp.fromI64_toInt, ok_bind]

theorem visitLabels_persisted (visitor : σ → NodeId × LabelId → DeltaOp → StorageResult σ)
    (s : σ) : rows.visitLabels visitor s =
      l.labels.toList.foldlM (fun s e => visitor s e.1 e.2) s := by
  unfold visitLabels
  rw [(ofLayer_ok hbuilt h).2.1, ExtTreeMap.toList_map, List.foldlM_map]
  simp only [DeltaOp.fromI64_toInt, ok_bind]

theorem visitRelationships_persisted (visitor : σ → RelationshipDelta → StorageResult σ)
    (s : σ) : rows.visitRelationships visitor s =
      l.relationships.toList.foldlM (fun s e => visitor s e.2) s := by
  unfold visitRelationships
  rw [(ofLayer_ok hbuilt h).2.2.1, ExtTreeMap.toList_map, List.foldlM_map]
  simp only [DeltaOp.fromI64_toInt, ok_bind]

theorem visitProperties_persisted
    (visitor : σ → PropertySlot → PropertyDelta → StorageResult σ) (s : σ) :
    rows.visitProperties visitor s =
      l.canonical.properties.toList.foldlM (fun s e => visitor s e.1 e.2) s := by
  obtain ⟨_, _, _, hrows, hrow⟩ := ofLayer_ok hbuilt h
  unfold visitProperties LayerBuilder.canonical
  rw [hrows, ExtTreeMap.toList_map, ExtTreeMap.toList_map, List.foldlM_map, List.foldlM_map]
  refine list_foldlM_congr s fun s e he => ?_
  rw [hrow e.1 e.2 (lookup_of_mem he), ok_bind]

/-- **Going through the rows of a layer is going through the layer.** -/
theorem visit_persisted (node : σ → NodeId → DeltaOp → σ)
    (label : σ → NodeId × LabelId → DeltaOp → σ)
    (relationship : σ → RelationshipId → RelationshipDelta → σ)
    (property : σ → PropertySlot → PropertyDelta → σ) (s : σ) :
    (do let s ← rows.visitNodes (fun s id op => pure (node s id op)) s
        let s ← rows.visitLabels (fun s row op => pure (label s row op)) s
        let s ← rows.visitRelationships
          (fun s delta => pure (relationship s delta.record.id delta)) s
        rows.visitProperties (fun s slot delta => pure (property s slot delta)) s) =
      .ok (l.canonical.properties.foldl property (l.relationships.foldl relationship
        (l.labels.foldl label (l.nodes.foldl node s)))) := by
  have hkeyed : ∀ s : σ, l.relationships.toList.foldlM (fun s e =>
      (pure (relationship s e.2.record.id e.2) : StorageResult σ)) s =
        .ok (l.relationships.foldl relationship s) := by
    intro s
    have hid : ∀ e ∈ l.relationships.toList, e.2.record.id = e.1 :=
      fun e he => (hbuilt.relationships e.1 e.2 (lookup_of_mem he)).1
    rw [list_foldlM_congr s fun s e he => by rw [hid e he], List.foldlM_pure,
      ExtTreeMap.foldl_eq_foldl_toList]
    rfl
  rw [visitNodes_persisted hbuilt h, List.foldlM_pure]
  show (visitLabels rows _ _ >>= _) = _
  rw [visitLabels_persisted hbuilt h, List.foldlM_pure]
  show (visitRelationships rows _ _ >>= _) = _
  rw [visitRelationships_persisted hbuilt h, hkeyed, ok_bind, visitProperties_persisted hbuilt h,
    List.foldlM_pure]
  simp only [ExtTreeMap.foldl_eq_foldl_toList]
  rfl

/-- **The rows of a layer load as the layer.** -/
theorem loadLayer_persisted : loadLayer rows = .ok l.canonical := by
  have hnodes := foldlM_insertEntries (ε := StorageError) LayerBuilder.nodes
    (fun l m => { l with nodes := m }) (fun _ _ => rfl) (fun _ _ _ => rfl) (fun _ => rfl) l.nodes
    {}
  have hlabels := foldlM_insertEntries (ε := StorageError) LayerBuilder.labels
    (fun l m => { l with labels := m }) (fun _ _ => rfl) (fun _ _ _ => rfl) (fun _ => rfl) l.labels
    { nodes := insertEntries ∅ l.nodes }
  have hrelationships := foldlM_insertEntries (ε := StorageError) LayerBuilder.relationships
    (fun l m => { l with relationships := m }) (fun _ _ => rfl) (fun _ _ _ => rfl) (fun _ => rfl)
    l.relationships { nodes := insertEntries ∅ l.nodes, labels := insertEntries ∅ l.labels }
  have hproperties := foldlM_insertEntries (ε := StorageError) LayerBuilder.properties
    (fun l m => { l with properties := m }) (fun _ _ => rfl) (fun _ _ _ => rfl) (fun _ => rfl)
    l.canonical.properties { nodes := insertEntries ∅ l.nodes, labels := insertEntries ∅ l.labels
                             relationships := insertEntries ∅ l.relationships }
  have hkeyed : ∀ acc : LayerBuilder, l.relationships.toList.foldlM (fun acc e =>
        (pure { acc with relationships := acc.relationships.insert e.2.record.id e.2 } :
          StorageResult LayerBuilder)) acc =
      l.relationships.toList.foldlM (fun acc e =>
        (pure { acc with relationships := acc.relationships.insert e.1 e.2 } :
          StorageResult LayerBuilder)) acc := by
    intro acc
    refine list_foldlM_congr acc fun acc e he => ?_
    rw [(hbuilt.relationships e.1 e.2 (lookup_of_mem he)).1]
  unfold loadLayer
  simp only [visitNodes_persisted hbuilt h, visitLabels_persisted hbuilt h,
    visitRelationships_persisted hbuilt h, visitProperties_persisted hbuilt h]
  rw [hnodes, ok_bind, hlabels, ok_bind, hkeyed, hrelationships, ok_bind, hproperties]
  simp only [insertEntries_empty]
  rfl

end Persisted

end LayerRows

/-! ## 7. The fields of a layer -/

namespace LayerBuilder

/-- The fields of a property record. -/
def propertyFields (slot : PropertySlot) (delta : PropertyDelta) (value : Option Bytes) :
    List Bytes :=
  [i64Bytes slot.1.toInt, i64Bytes slot.2.1, i64Bytes slot.2.2, i64Bytes delta.op.toInt,
    optionalBytes (typeBytes delta), optionalBytes value]

theorem valueBytes_canonical (delta : PropertyDelta) :
    valueBytes delta.canonical = valueBytes delta := by
  obtain ⟨op, value⟩ := delta
  cases value with
  | none => rfl
  | some value =>
    show (value.canonical.canonicalBytes >>= fun bytes => pure (some bytes)) = _
    rw [canonicalBytes_canonical]
    rfl

theorem typeBytes_canonical (delta : PropertyDelta) :
    typeBytes delta.canonical = typeBytes delta := by
  obtain ⟨op, value⟩ := delta
  cases value with
  | none => rfl
  | some value =>
    exact congrArg (fun n : Nat => some (i64Bytes n)) (PropertyColumns.typeTag_canonical value)

theorem propertyRecordChecked_ok {slot : PropertySlot} {bytes : Bytes}
    (h : propertyRecordChecked slot delta = .ok bytes) :
    ∃ value, valueBytes delta = .ok value ∧ Sized (propertyFields slot delta value) ∧
      bytes = record "PROPERTY" (propertyFields slot delta value) := by
  obtain ⟨value, hvalue, h⟩ := bind_eq_ok.mp h
  obtain ⟨field, hfield, h⟩ := bind_eq_ok.mp h
  unfold optionalBytesChecked at hfield
  split at hfield
  · cases hfield
  · cases hfield
    obtain ⟨hsize, rfl⟩ := recordChecked_ok h
    exact ⟨value, hvalue, hsize, rfl⟩

theorem propertyRecord_of_checked {slot : PropertySlot} {bytes : Bytes}
    (h : propertyRecordChecked slot delta = .ok bytes) : propertyRecord slot delta = .ok bytes := by
  obtain ⟨value, hvalue, _, rfl⟩ := propertyRecordChecked_ok h
  unfold propertyRecord
  rw [hvalue]
  rfl

theorem propertyRecordChecked_canonical (slot : PropertySlot) (delta : PropertyDelta) :
    propertyRecordChecked slot delta.canonical = propertyRecordChecked slot delta := by
  unfold propertyRecordChecked
  rw [valueBytes_canonical, typeBytes_canonical]
  rfl

variable (l : LayerBuilder)

theorem properties_canonical :
    l.canonical.properties.toList.mapM (fun e => propertyRecordChecked e.1 e.2) =
      l.properties.toList.mapM fun e => propertyRecordChecked e.1 e.2 := by
  show (l.properties.map fun _ delta => delta.canonical).toList.mapM _ = _
  rw [ExtTreeMap.toList_map, List.mapM_map]
  congr 1
  funext e
  exact propertyRecordChecked_canonical e.1 e.2

theorem fields_eq : l.fields = (do
    let properties ← l.properties.toList.mapM fun e => propertyRecordChecked e.1 e.2
    pure (l.nodes.toList.map (fun e => nodeRecord e.1 e.2) ++
      l.labels.toList.map (fun e => labelRecord e.1.1 e.1.2 e.2) ++
      l.relationships.toList.map (fun e => relationshipRecord e.2) ++ properties)) := rfl

/-- **A layer and its canonical form have the same fields.** -/
theorem fields_canonical : l.canonical.fields = l.fields := by
  rw [fields_eq, fields_eq, properties_canonical]
  rfl

end LayerBuilder

end Lithograph.Storage
