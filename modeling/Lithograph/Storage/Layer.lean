/-
  File:      Lithograph/Storage/Layer.lean
  Subject:   Layers: canonical sets of graph changes (`storage/layer.rs`).

  A layer names each logical slot at most once and says what it becomes.
-/
import Lithograph.Storage.PropertyValue

namespace Lithograph.Storage

open Std

inductive DeltaOp where
  | add
  | remove
  deriving DecidableEq, Repr

/-- `op as i64`. -/
def DeltaOp.toInt : DeltaOp → Int
  | .add => 1
  | .remove => 2

/-- The tuple a relationship keeps for life. -/
structure RelationshipRecord where
  id : RelationshipId
  source : NodeId
  typeId : RelationshipTypeId
  target : NodeId
  deriving DecidableEq, Repr

structure PropertyDelta where
  op : DeltaOp
  value : Option PropertyValue

structure RelationshipDelta where
  op : DeltaOp
  record : RelationshipRecord
  deriving DecidableEq, Repr

/-- The key of a property: its owner's kind, its owner and its property key. -/
abbrev PropertySlot := OwnerKind × Int × PropertyKeyId

instance : TransOrd PropertySlot := inferInstance

structure LayerBuilder where
  nodes : ExtTreeMap NodeId DeltaOp := ∅
  labels : ExtTreeMap (NodeId × LabelId) DeltaOp := ∅
  relationships : ExtTreeMap RelationshipId RelationshipDelta := ∅
  properties : ExtTreeMap PropertySlot PropertyDelta := ∅

def requirePositive (value : Int) (name : String) : StorageResult Unit :=
  if 0 < value then .ok ()
  else .error (.corrupt (name ++ " must be a positive INTEGER64"))

def requirePositivePair (first second : Int) (firstName secondName : String) :
    StorageResult Unit := do
  requirePositive first firstName
  requirePositive second secondName

def validateRelationship (relationship : RelationshipRecord) : StorageResult Unit := do
  requirePositive relationship.id "RelationshipId"
  requirePositive relationship.source "source NodeId"
  requirePositive relationship.typeId "RelationshipTypeId"
  requirePositive relationship.target "target NodeId"

namespace LayerBuilder

/-! ## 1. The constructors -/

def addNode (layer : LayerBuilder) (id : NodeId) : StorageResult LayerBuilder := do
  requirePositive id "NodeId"
  pure { layer with nodes := layer.nodes.insert id .add }

def removeNode (layer : LayerBuilder) (id : NodeId) : StorageResult LayerBuilder := do
  requirePositive id "NodeId"
  pure { layer with nodes := layer.nodes.insert id .remove }

def addLabel (layer : LayerBuilder) (node : NodeId) (label : LabelId) :
    StorageResult LayerBuilder := do
  requirePositivePair node label "NodeId" "LabelId"
  pure { layer with labels := layer.labels.insert (node, label) .add }

def removeLabel (layer : LayerBuilder) (node : NodeId) (label : LabelId) :
    StorageResult LayerBuilder := do
  requirePositivePair node label "NodeId" "LabelId"
  pure { layer with labels := layer.labels.insert (node, label) .remove }

def addRelationship (layer : LayerBuilder) (relationship : RelationshipRecord) :
    StorageResult LayerBuilder := do
  validateRelationship relationship
  pure { layer with
    relationships := layer.relationships.insert relationship.id ⟨.add, relationship⟩ }

def removeRelationship (layer : LayerBuilder) (relationship : RelationshipRecord) :
    StorageResult LayerBuilder := do
  validateRelationship relationship
  pure { layer with
    relationships := layer.relationships.insert relationship.id ⟨.remove, relationship⟩ }

def setProperty (layer : LayerBuilder) (kind : OwnerKind) (owner : Int) (key : PropertyKeyId)
    (value : PropertyValue) : StorageResult LayerBuilder := do
  requirePositivePair owner key "owner id" "PropertyKeyId"
  pure { layer with
    properties := layer.properties.insert (kind, owner, key) ⟨.add, some value⟩ }

def removeProperty (layer : LayerBuilder) (kind : OwnerKind) (owner : Int)
    (key : PropertyKeyId) : StorageResult LayerBuilder := do
  requirePositivePair owner key "owner id" "PropertyKeyId"
  pure { layer with
    properties := layer.properties.insert (kind, owner, key) ⟨.remove, none⟩ }

/-! ## 2. The canonical bytes -/

def nodeRecord (id : NodeId) (op : DeltaOp) : Bytes :=
  record "NODE" [i64Bytes id, i64Bytes op.toInt]

def labelRecord (node : NodeId) (label : LabelId) (op : DeltaOp) : Bytes :=
  record "LABEL" [i64Bytes node, i64Bytes label, i64Bytes op.toInt]

def relationshipRecord (delta : RelationshipDelta) : Bytes :=
  record "REL" [i64Bytes delta.record.id, i64Bytes delta.record.source,
    i64Bytes delta.record.typeId, i64Bytes delta.record.target, i64Bytes delta.op.toInt]

/-- The canonical bytes of the value of a change, where it has one. -/
def valueBytes (delta : PropertyDelta) : StorageResult (Option Bytes) :=
  match delta.value with
  | some value => do
    let bytes ← value.canonicalBytes
    pure (some bytes)
  | none => .ok none

/-- The bytes of the type tag of a change, where it has a value. -/
def typeBytes (delta : PropertyDelta) : Option Bytes :=
  delta.value.map fun value => i64Bytes value.typeTag

/-- `property_record`: the type tag and the canonical bytes of the value, where there is one. -/
def propertyRecord (slot : PropertySlot) (delta : PropertyDelta) : StorageResult Bytes := do
  let valueBytes ← valueBytes delta
  pure (record "PROPERTY" [i64Bytes slot.1.toInt, i64Bytes slot.2.1, i64Bytes slot.2.2,
    i64Bytes delta.op.toInt, optionalBytes (typeBytes delta), optionalBytes valueBytes])

/-- `property_record_checked`: the same where every size is addressable. -/
def propertyRecordChecked (slot : PropertySlot) (delta : PropertyDelta) : StorageResult Bytes := do
  let valueBytes ← valueBytes delta
  let valueField ← optionalBytesChecked valueBytes
  recordChecked "PROPERTY" [i64Bytes slot.1.toInt, i64Bytes slot.2.1, i64Bytes slot.2.2,
    i64Bytes delta.op.toInt, optionalBytes (typeBytes delta), valueField]

def slotCount (layer : LayerBuilder) : Nat :=
  layer.nodes.size + layer.labels.size + layer.relationships.size + layer.properties.size

/-- One record for each change: nodes, labels, relationships, properties, each in key order. -/
def fields (layer : LayerBuilder) : StorageResult (List Bytes) := do
  let nodes := layer.nodes.toList.map fun (id, op) => nodeRecord id op
  let labels := layer.labels.toList.map fun ((node, label), op) => labelRecord node label op
  let relationships := layer.relationships.toList.map fun (_, delta) => relationshipRecord delta
  let properties ← layer.properties.toList.mapM fun (slot, delta) =>
    propertyRecordChecked slot delta
  pure (nodes ++ labels ++ relationships ++ properties)

def canonicalLce1 (layer : LayerBuilder) : StorageResult Bytes := do
  let fields ← layer.fields
  recordChecked "LAYER" fields

/-- What `content_hash` feeds the hash: the same bytes, without the last check of the size. -/
def hashedBytes (layer : LayerBuilder) : StorageResult Bytes := do
  let fields ← layer.fields
  pure (record "LAYER" fields)

end LayerBuilder

/-! ## 3. What the checks establish -/

variable {u : Unit} {r : RelationshipRecord} {l l' : LayerBuilder}

@[simp] theorem requirePositive_ok {value : Int} {name : String} :
    requirePositive value name = .ok u ↔ 0 < value := by
  unfold requirePositive
  split
  · simpa using ‹0 < value›
  · simpa using ‹¬ 0 < value›

@[simp] theorem requirePositivePair_ok {a b : Int} {m n : String} :
    requirePositivePair a b m n = .ok u ↔ 0 < a ∧ 0 < b := by
  unfold requirePositivePair
  rw [Library.bind_eq_ok]
  simp

/-- The identifiers of a record that `validate_relationship` lets through. -/
def RelationshipRecord.Positive (r : RelationshipRecord) : Prop :=
  0 < r.id ∧ 0 < r.source ∧ 0 < r.typeId ∧ 0 < r.target

@[simp] theorem validateRelationship_ok : validateRelationship r = .ok u ↔ r.Positive := by
  unfold validateRelationship RelationshipRecord.Positive
  simp only [Library.bind_eq_ok, requirePositive_ok]
  simp

namespace LayerBuilder

/-- One node change sets that node's slot and nothing else. -/
theorem addNode_ok {id : NodeId} :
    l.addNode id = .ok l' ↔ 0 < id ∧ l' = { l with nodes := l.nodes.insert id .add } := by
  unfold addNode
  simp only [Library.bind_eq_ok, requirePositive_ok, pure, Except.pure, Except.ok.injEq]
  simp [eq_comm]

theorem removeNode_ok {id : NodeId} :
    l.removeNode id = .ok l' ↔ 0 < id ∧ l' = { l with nodes := l.nodes.insert id .remove } := by
  unfold removeNode
  simp only [Library.bind_eq_ok, requirePositive_ok, pure, Except.pure, Except.ok.injEq]
  simp [eq_comm]

theorem addLabel_ok {node label : Int} : l.addLabel node label = .ok l' ↔
      (0 < node ∧ 0 < label) ∧ l' = { l with labels := l.labels.insert (node, label) .add } := by
  unfold addLabel
  simp only [Library.bind_eq_ok, requirePositivePair_ok, pure, Except.pure, Except.ok.injEq]
  simp [eq_comm]

theorem removeLabel_ok {node label : Int} : l.removeLabel node label = .ok l' ↔
      (0 < node ∧ 0 < label) ∧ l' = { l with labels := l.labels.insert (node, label) .remove } := by
  unfold removeLabel
  simp only [Library.bind_eq_ok, requirePositivePair_ok, pure, Except.pure, Except.ok.injEq]
  simp [eq_comm]

theorem addRelationship_ok : l.addRelationship r = .ok l' ↔
      r.Positive ∧ l' = { l with relationships := l.relationships.insert r.id ⟨.add, r⟩ } := by
  unfold addRelationship
  simp only [Library.bind_eq_ok, validateRelationship_ok, pure, Except.pure, Except.ok.injEq]
  simp [eq_comm]

theorem removeRelationship_ok : l.removeRelationship r = .ok l' ↔
      r.Positive ∧ l' = { l with relationships := l.relationships.insert r.id ⟨.remove, r⟩ } := by
  unfold removeRelationship
  simp only [Library.bind_eq_ok, validateRelationship_ok, pure, Except.pure, Except.ok.injEq]
  simp [eq_comm]

theorem setProperty_ok {kind : OwnerKind} {owner key : Int} {value : PropertyValue} :
    l.setProperty kind owner key value = .ok l' ↔
      (0 < owner ∧ 0 < key) ∧
        l' = { l with
          properties := l.properties.insert (kind, owner, key) ⟨.add, some value⟩ } := by
  unfold setProperty
  simp only [Library.bind_eq_ok, requirePositivePair_ok, pure, Except.pure, Except.ok.injEq]
  simp [eq_comm]

theorem removeProperty_ok {kind : OwnerKind} {owner key : Int} :
    l.removeProperty kind owner key = .ok l' ↔
      (0 < owner ∧ 0 < key) ∧
        l' = { l with properties := l.properties.insert (kind, owner, key) ⟨.remove, none⟩ } := by
  unfold removeProperty
  simp only [Library.bind_eq_ok, requirePositivePair_ok, pure, Except.pure, Except.ok.injEq]
  simp [eq_comm]

end LayerBuilder

end Lithograph.Storage
