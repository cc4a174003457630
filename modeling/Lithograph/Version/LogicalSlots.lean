/-
  File:      Lithograph/Version/LogicalSlots.lean
  Subject:   The logical slots of a snapshot (`query/version/merge/state.rs`).

  A merge, a diff and a patch see a snapshot as a sorted map from slots to values. Left out: what
  the source charges for memory and work.
-/
import Lithograph.Cypher.Json
import Lithograph.Storage.OverlayViews
import Lithograph.Storage.SchemaState
import Lithograph.Version.Canonical

namespace Lithograph.Version

open Std Library Storage Cypher Query

/-- `SnapshotState`: the graph and the schema of a commit. -/
structure SnapshotState extends GraphState where
  schema : SchemaState := {}

/-- What the slots read besides the snapshot. -/
structure Connection where
  labels : Dictionary
  relationshipTypes : Dictionary
  propertyKeys : Dictionary
  zones : ZoneDatabase
  wrapLongitude : F64 → F64
  shapes : JsonShapes

abbrev VersionSlots := ExtTreeMap Text Value

/-! ## 1. Reading and writing ids -/

/-- `ok_or_else`. -/
def orElse {α : Type} (value : Option α) (error : QueryError) : QueryResult α :=
  match value with
  | some a => .ok a
  | none => .error error

@[simp] theorem orElse_ok {α : Type} {value : Option α} {error : QueryError} {a : α} :
    orElse value error = .ok a ↔ value = some a := by
  cases value <;> simp [orElse]

/-! ## 2. The slots of a snapshot -/

def nodeSlot (node : Int) : Text := "node/".toList ++ integerText node

def labelSlot (node : Int) (label : Text) : Text := nodeSlot node ++ "/label/".toList ++ label

def relationshipSlot (relationship : Int) : Text :=
  "relationship/".toList ++ integerText relationship

/-- The slot of the element a property belongs to. -/
def ownerSlot (owner : OwnerKind) (id : Int) : Text :=
  match owner with
  | .node => nodeSlot id
  | .relationship => relationshipSlot id

def propertySlot (owner : OwnerKind) (id : Int) (key : Text) : Text :=
  ownerSlot owner id ++ "/property/".toList ++ key

def relationshipValue (c : Connection) (relationship : RelationshipRecord) : QueryResult Value := do
  let name ← orElse (c.relationshipTypes.nameOf relationship.typeId)
    ⟨.storage, "Relationship type is missing"⟩
  pure (.map [("source".toList, .string ("n:".toList ++ integerText relationship.source)),
    ("target".toList, .string ("n:".toList ++ integerText relationship.target)),
    ("type".toList, .string name)])

/-- One family of slots inserted: the slot and the value of every item. -/
def appendSlots {α : Type} (entry : α → QueryResult (Text × Value)) (items : List α)
    (slots : VersionSlots) : QueryResult VersionSlots :=
  items.foldlM (fun slots item => do
    let slot ← entry item
    pure (slots.insert slot.1 slot.2)) slots

def nodeEntry (node : Int) : QueryResult (Text × Value) := .ok (nodeSlot node, .boolean true)

/-- `append_label_slot`. -/
def labelEntry (c : Connection) (label : Int × LabelId) : QueryResult (Text × Value) := do
  let name ← orElse (c.labels.nameOf label.2)
    ⟨.storage, "LabelId " ++ toString label.2 ++ " is missing"⟩
  pure (labelSlot label.1 name, .boolean true)

def relationshipEntry (c : Connection) (entry : RelationshipId × RelationshipRecord) :
    QueryResult (Text × Value) := do
  let value ← relationshipValue c entry.2
  pure (relationshipSlot entry.2.id, value)

def propertyEntry (c : Connection) (entry : PropertySlot × PropertyValue) :
    QueryResult (Text × Value) := do
  let key ← orElse (c.propertyKeys.nameOf entry.1.2.2)
    ⟨.storage, "PropertyKeyId " ++ toString entry.1.2.2 ++ " is missing"⟩
  let value ← propertyValue c.zones c.wrapLongitude entry.2
  pure (propertySlot entry.1.1 entry.1.2.1 key, value)

def serdeValue {T : Type} [Serial T] (shapes : JsonShapes) (definition : T) : QueryResult Value :=
  ofValue (decodeJson shapes (Serial.toJson definition))

/-- `append_schema_slot`. -/
def schemaEntry {T : Type} [Serial T] (c : Connection) (slot : Text → Text) (entry : Text × T) :
    QueryResult (Text × Value) := do
  let value ← serdeValue c.shapes entry.2
  pure (slot entry.1, value)

def appendGraphSlots (c : Connection) (state : SnapshotState) (slots : VersionSlots) :
    QueryResult VersionSlots := do
  let slots ← appendSlots nodeEntry state.nodes.keys slots
  let slots ← appendSlots (labelEntry c) state.labels.keys slots
  appendSlots (relationshipEntry c) state.relationships.toList slots

def appendPropertySlots (c : Connection) (state : SnapshotState) (slots : VersionSlots) :
    QueryResult VersionSlots :=
  appendSlots (propertyEntry c) state.properties.toList slots

def appendSchemaSlots (c : Connection) (state : SnapshotState) (slots : VersionSlots) :
    QueryResult VersionSlots := do
  let slots ← appendSlots (schemaEntry c graphNodeSlot) state.schema.graphNodes.toList slots
  let slots ← appendSlots (schemaEntry c graphRelationshipSlot)
    state.schema.graphRelationships.toList slots
  let slots ← appendSlots (schemaEntry c constraintSlot) state.schema.constraints.toList slots
  appendSlots (schemaEntry c indexSlot) state.schema.indexes.toList slots

def logicalSlots (c : Connection) (state : SnapshotState) : QueryResult VersionSlots := do
  let slots ← appendGraphSlots c state ∅
  let slots ← appendPropertySlots c state slots
  appendSchemaSlots c state slots

end Lithograph.Version
