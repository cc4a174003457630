/-
  File:      Lithograph/Storage/SchemaState.lean
  Subject:   The versioned schema of a graph and its JSON (`storage/schema_state.rs`).

  The definitions are written and read as their derived serializers do. The text of a refusal is the
  JSON library's own, so a refusal gives nothing here.
-/
import Lithograph.Storage.Encoding

namespace Lithograph.Storage

open Std Library

/-- A type with a derived serializer: what is written is read back. -/
class Serial (T : Type) where
  toJson : T → Json
  fromJson : Json → Option T
  fromJson_toJson : ∀ value, fromJson (toJson value) = some value

/-! ## 1. The parts of a derived serializer -/

/-- The fields of an object. -/
def Json.fields? : Json → Option (List (Text × Json))
  | .object fields => some fields
  | _ => none

def Json.text? : Json → Option Text
  | .string text => some text
  | _ => none

def Json.bool? : Json → Option Bool
  | .bool value => some value
  | _ => none

/-- A number that is a `u64`. -/
abbrev U64 := { n : Nat // n < 2 ^ 64 }

def Json.u64? : Json → Option U64
  | .int (.ofNat n) => if h : n < 2 ^ 64 then some ⟨n, h⟩ else none
  | _ => none

def Json.items? : Json → Option (List Json)
  | .array items => some items
  | _ => none

/-- A `Vec<String>`. -/
def Json.texts? (json : Json) : Option (List Text) := do
  let items ← json.items?
  items.mapM Json.text?

/-- A required field. -/
def requiredField {α : Type} (fields : List (Text × Json)) (name : String) (read : Json → Option α) :
    Option α := do
  let value ← fields.lookup name.toList
  read value

/-- An `Option` field: missing and null are none. -/
def optionalField {α : Type} (fields : List (Text × Json)) (name : String) (read : Json → Option α) :
    Option (Option α) :=
  match fields.lookup name.toList with
  | none => some none
  | some .null => some none
  | some value => (read value).map some

/-- A field with a default. -/
def defaultedField {α : Type} (fields : List (Text × Json)) (name : String) (absent : α)
    (read : Json → Option α) : Option α :=
  match fields.lookup name.toList with
  | none => some absent
  | some value => read value

def textJson (text : Text) : Json := .string text
def u64Json (n : U64) : Json := .int n.val
def textsJson (texts : List Text) : Json := .array (texts.map textJson)

def optionJson {α : Type} (write : α → Json) : Option α → Json
  | none => .null
  | some value => write value

@[simp] theorem texts_textsJson (texts : List Text) : (textsJson texts).texts? = some texts := by
  unfold textsJson Json.texts? Json.items?
  simp only [Option.bind_eq_bind, Option.bind_some]
  induction texts with
  | nil => rfl
  | cons text rest ih => simp [textJson, Json.text?, ih]

@[simp] theorem u64_u64Json (n : U64) : (u64Json n).u64? = some n := dif_pos n.property

/-- A set of texts, in order. -/
abbrev TextSet := ExtTreeMap Text Unit

def TextSet.json (set : TextSet) : Json := textsJson set.keys

def Json.textSet? (json : Json) : Option TextSet :=
  json.texts?.map fun texts => texts.foldl (fun set text => set.insert text ()) ∅

/-- A map with texts as keys. -/
def mapJson {α : Type} (write : α → Json) (map : ExtTreeMap Text α) : Json :=
  .object (map.toList.map fun entry => (entry.1, write entry.2))

/-- The entries of an object, in a map. -/
def readEntries {α : Type} (read : Json → Option α) :
    List (Text × Json) → ExtTreeMap Text α → Option (ExtTreeMap Text α)
  | [], map => some map
  | (key, json) :: rest, map => do
    let value ← read json
    readEntries read rest (map.insert key value)

def Json.map? {α : Type} (read : Json → Option α) (json : Json) : Option (ExtTreeMap Text α) := do
  let fields ← json.fields?
  readEntries read fields ∅

@[simp] theorem textSet_json (set : TextSet) : set.json.textSet? = some set := by
  unfold TextSet.json Json.textSet?
  rw [texts_textsJson, Option.map_some, Option.some.injEq]
  have hentries := getElem?_insertEntries (∅ : TextSet) set
  refine ExtTreeMap.ext_getElem? fun key => ?_
  have hfold : set.keys.foldl (fun set text => set.insert text ()) (∅ : TextSet) =
      insertEntries ∅ set := by
    unfold insertEntries
    rw [ExtTreeMap.foldl_eq_foldl_toList, ← ExtTreeMap.map_fst_toList_eq_keys, List.foldl_map]
  rw [hfold, hentries]
  simp

variable {α : Type} {read : Json → Option α}

theorem readEntries_toList {write : α → Json} (hback : ∀ value, read (write value) = some value) :
    ∀ (entries : List (Text × α)) (map : ExtTreeMap Text α),
      readEntries read (entries.map fun entry => (entry.1, write entry.2)) map =
        some (entries.foldl (fun map entry => map.insert entry.1 entry.2) map)
  | [], map => rfl
  | (key, value) :: rest, map => by
    simp only [List.map_cons, readEntries, hback, Option.bind_eq_bind, Option.bind_some,
      List.foldl_cons]
    exact readEntries_toList hback rest _

theorem map_mapJson {write : α → Json}
    (hback : ∀ value, read (write value) = some value) (map : ExtTreeMap Text α) :
    (mapJson write map).map? read = some map := by
  unfold mapJson Json.map? Json.fields?
  simp only [Option.bind_eq_bind, Option.bind_some]
  rw [readEntries_toList hback, Option.some.injEq]
  refine ExtTreeMap.ext_getElem? fun key => ?_
  have hentries := getElem?_insertEntries (∅ : ExtTreeMap Text α) map key
  unfold insertEntries at hentries
  rw [ExtTreeMap.foldl_eq_foldl_toList] at hentries
  rw [hentries]
  simp

/-! ## 2. Property types -/

inductive PropertyType where
  | any | boolean | integer | float | string | date | localTime | zonedTime | localDateTime
  | zonedDateTime | duration | point | uuid
  | vector (coordinate : Text) (dimension : U64)
  | list (element : PropertyType)
  | union (members : List PropertyType)

/-- The name of a type, as its tag spells it. -/
def PropertyType.tag : PropertyType → String
  | .any => "any"
  | .boolean => "boolean"
  | .integer => "integer"
  | .float => "float"
  | .string => "string"
  | .date => "date"
  | .localTime => "local_time"
  | .zonedTime => "zoned_time"
  | .localDateTime => "local_date_time"
  | .zonedDateTime => "zoned_date_time"
  | .duration => "duration"
  | .point => "point"
  | .uuid => "uuid"
  | .vector _ _ => "vector"
  | .list _ => "list"
  | .union _ => "union"

/-- The types without fields. -/
def PropertyType.plain : List PropertyType :=
  [.any, .boolean, .integer, .float, .string, .date, .localTime, .zonedTime, .localDateTime,
    .zonedDateTime, .duration, .point, .uuid]

mutual

def PropertyType.json : PropertyType → Json
  | .vector coordinate dimension =>
    .object [("coordinate".toList, textJson coordinate), ("dimension".toList, u64Json dimension),
      ("type".toList, textJson "vector".toList)]
  | .list element =>
    .object [("element".toList, element.json), ("type".toList, textJson "list".toList)]
  | .union members =>
    .object [("members".toList, .array (typesJson members)),
      ("type".toList, textJson "union".toList)]
  | plain => .object [("type".toList, textJson plain.tag.toList)]

def typesJson : List PropertyType → List Json
  | [] => []
  | member :: rest => member.json :: typesJson rest

end

mutual

def PropertyType.ofJson : Json → Option PropertyType
  | .object fields => do
    let tag ← requiredField fields "type" Json.text?
    if tag = "vector".toList then do
      let coordinate ← requiredField fields "coordinate" Json.text?
      let dimension ← requiredField fields "dimension" Json.u64?
      pure (.vector coordinate dimension)
    else if tag = "list".toList then (elementOf fields).map .list
    else if tag = "union".toList then (membersOf fields).map .union
    else PropertyType.plain.find? fun plain => plain.tag.toList == tag
  | _ => none

/-- The type in the field `element`. -/
def elementOf : List (Text × Json) → Option PropertyType
  | [] => none
  | (key, json) :: rest => if key = "element".toList then PropertyType.ofJson json else elementOf rest

/-- The types in the field `members`. -/
def membersOf : List (Text × Json) → Option (List PropertyType)
  | [] => none
  | (key, json) :: rest => if key = "members".toList then membersJson json else membersOf rest

def membersJson : Json → Option (List PropertyType)
  | .array items => typesOf items
  | _ => none

def typesOf : List Json → Option (List PropertyType)
  | [] => some []
  | item :: rest => do
    let member ← PropertyType.ofJson item
    let members ← typesOf rest
    pure (member :: members)

end

mutual

theorem PropertyType.ofJson_json : ∀ type : PropertyType, PropertyType.ofJson type.json = some type
  | .vector coordinate dimension => by
    have hdimension := u64_u64Json dimension
    show (do
      let dimension ← (u64Json dimension).u64?
      pure (PropertyType.vector coordinate dimension)) = _
    rw [hdimension]
    rfl
  | .list element => by
    show (PropertyType.ofJson element.json).map PropertyType.list = _
    rw [PropertyType.ofJson_json element]
    rfl
  | .union members => by
    show (typesOf (typesJson members)).map PropertyType.union = _
    rw [typesOf_typesJson members]
    rfl
  | .any => rfl
  | .boolean => rfl
  | .integer => rfl
  | .float => rfl
  | .string => rfl
  | .date => rfl
  | .localTime => rfl
  | .zonedTime => rfl
  | .localDateTime => rfl
  | .zonedDateTime => rfl
  | .duration => rfl
  | .point => rfl
  | .uuid => rfl

theorem typesOf_typesJson : ∀ types : List PropertyType, typesOf (typesJson types) = some types
  | [] => rfl
  | type :: rest => by
    unfold typesJson typesOf
    rw [PropertyType.ofJson_json type, typesOf_typesJson rest]
    rfl

end

structure PropertyRule where
  propertyType : PropertyType
  required : Bool

def PropertyRule.json (rule : PropertyRule) : Json :=
  .object [("property_type".toList, rule.propertyType.json), ("required".toList, .bool rule.required)]

def PropertyRule.ofJson (json : Json) : Option PropertyRule := do
  let fields ← json.fields?
  let propertyType ← requiredField fields "property_type" PropertyType.ofJson
  let mustHave ← requiredField fields "required" Json.bool?
  pure ⟨propertyType, mustHave⟩

@[simp] theorem PropertyRule.ofJson_json (rule : PropertyRule) : ofJson rule.json = some rule := by
  show (do
    let propertyType ← PropertyType.ofJson rule.propertyType.json
    pure (⟨propertyType, rule.required⟩ : PropertyRule)) = _
  rw [PropertyType.ofJson_json]
  rfl

/-! ## 3. Graph types -/

structure GraphNodeType where
  label : Text
  impliedLabels : TextSet
  properties : ExtTreeMap Text PropertyRule

def GraphNodeType.json (type : GraphNodeType) : Json :=
  .object [("implied_labels".toList, type.impliedLabels.json), ("label".toList, textJson type.label),
    ("properties".toList, mapJson PropertyRule.json type.properties)]

def GraphNodeType.ofJson (json : Json) : Option GraphNodeType := do
  let fields ← json.fields?
  let impliedLabels ← requiredField fields "implied_labels" Json.textSet?
  let label ← requiredField fields "label" Json.text?
  let properties ← requiredField fields "properties" (Json.map? PropertyRule.ofJson)
  pure ⟨label, impliedLabels, properties⟩

instance : Serial GraphNodeType where
  toJson := GraphNodeType.json
  fromJson := GraphNodeType.ofJson
  fromJson_toJson type := by
    show (do
      let impliedLabels ← type.impliedLabels.json.textSet?
      let properties ← (mapJson PropertyRule.json type.properties).map? PropertyRule.ofJson
      pure (⟨type.label, impliedLabels, properties⟩ : GraphNodeType)) = _
    rw [textSet_json, map_mapJson PropertyRule.ofJson_json]
    rfl

structure GraphRelationshipType where
  relationshipType : Text
  sourceLabel : Option Text
  sourceIdentifying : Bool
  targetLabel : Option Text
  targetIdentifying : Bool
  properties : ExtTreeMap Text PropertyRule

def GraphRelationshipType.json (type : GraphRelationshipType) : Json :=
  .object [("properties".toList, mapJson PropertyRule.json type.properties),
    ("relationship_type".toList, textJson type.relationshipType),
    ("source_identifying".toList, .bool type.sourceIdentifying),
    ("source_label".toList, optionJson textJson type.sourceLabel),
    ("target_identifying".toList, .bool type.targetIdentifying),
    ("target_label".toList, optionJson textJson type.targetLabel)]

def GraphRelationshipType.ofJson (json : Json) : Option GraphRelationshipType := do
  let fields ← json.fields?
  let properties ← requiredField fields "properties" (Json.map? PropertyRule.ofJson)
  let relationshipType ← requiredField fields "relationship_type" Json.text?
  let sourceIdentifying ← requiredField fields "source_identifying" Json.bool?
  let sourceLabel ← optionalField fields "source_label" Json.text?
  let targetIdentifying ← requiredField fields "target_identifying" Json.bool?
  let targetLabel ← optionalField fields "target_label" Json.text?
  pure ⟨relationshipType, sourceLabel, sourceIdentifying, targetLabel, targetIdentifying, properties⟩

instance : Serial GraphRelationshipType where
  toJson := GraphRelationshipType.json
  fromJson := GraphRelationshipType.ofJson
  fromJson_toJson type := by
    obtain ⟨relationshipType, sourceLabel, sourceIdentifying, targetLabel, targetIdentifying,
      properties⟩ := type
    have hproperties := map_mapJson PropertyRule.ofJson_json properties
    unfold GraphRelationshipType.ofJson GraphRelationshipType.json
    have hrequired : requiredField [("properties".toList, mapJson PropertyRule.json properties),
        ("relationship_type".toList, textJson relationshipType),
        ("source_identifying".toList, .bool sourceIdentifying),
        ("source_label".toList, optionJson textJson sourceLabel),
        ("target_identifying".toList, .bool targetIdentifying),
        ("target_label".toList, optionJson textJson targetLabel)] "properties"
        (Json.map? PropertyRule.ofJson) = some properties := hproperties
    simp only [Json.fields?, Option.bind_eq_bind, Option.bind_some, hrequired]
    cases sourceLabel <;> cases targetLabel <;> rfl

/-! ## 4. Constraints -/

inductive SchemaTarget where
  | node (label : Text)
  | relationship (relationshipType : Text)

def SchemaTarget.json : SchemaTarget → Json
  | .node label =>
    .object [("label".toList, textJson label), ("target".toList, textJson "node".toList)]
  | .relationship relationshipType =>
    .object [("relationship_type".toList, textJson relationshipType),
      ("target".toList, textJson "relationship".toList)]

def SchemaTarget.ofJson (json : Json) : Option SchemaTarget := do
  let fields ← json.fields?
  let tag ← requiredField fields "target" Json.text?
  if tag = "node".toList then (requiredField fields "label" Json.text?).map .node
  else if tag = "relationship".toList then
    (requiredField fields "relationship_type" Json.text?).map .relationship
  else none

@[simp] theorem SchemaTarget.ofJson_json (target : SchemaTarget) :
    ofJson target.json = some target := by
  cases target <;> rfl

inductive ConstraintDefinitionKind where
  | key
  | unique
  | notNull
  | type (rule : PropertyRule)

def ConstraintDefinitionKind.json : ConstraintDefinitionKind → Json
  | .key => .object [("kind".toList, textJson "key".toList)]
  | .unique => .object [("kind".toList, textJson "unique".toList)]
  | .notNull => .object [("kind".toList, textJson "not_null".toList)]
  | .type rule => .object [("kind".toList, textJson "type".toList), ("rule".toList, rule.json)]

def ConstraintDefinitionKind.ofJson (json : Json) : Option ConstraintDefinitionKind := do
  let fields ← json.fields?
  let tag ← requiredField fields "kind" Json.text?
  if tag = "key".toList then some .key
  else if tag = "unique".toList then some .unique
  else if tag = "not_null".toList then some .notNull
  else if tag = "type".toList then (requiredField fields "rule" PropertyRule.ofJson).map .type
  else none

@[simp] theorem ConstraintDefinitionKind.ofJson_json (kind : ConstraintDefinitionKind) :
    ofJson kind.json = some kind := by
  cases kind with
  | type rule =>
    show (PropertyRule.ofJson rule.json).map ConstraintDefinitionKind.type = _
    rw [PropertyRule.ofJson_json]
    rfl
  | _ => rfl

structure ConstraintDefinition where
  name : Text
  target : SchemaTarget
  properties : List Text
  kind : ConstraintDefinitionKind
  origin : Option Text

def ConstraintDefinition.json (constraint : ConstraintDefinition) : Json :=
  .object [("kind".toList, constraint.kind.json), ("name".toList, textJson constraint.name),
    ("origin".toList, optionJson textJson constraint.origin),
    ("properties".toList, textsJson constraint.properties),
    ("target".toList, constraint.target.json)]

def ConstraintDefinition.ofJson (json : Json) : Option ConstraintDefinition := do
  let fields ← json.fields?
  let kind ← requiredField fields "kind" ConstraintDefinitionKind.ofJson
  let name ← requiredField fields "name" Json.text?
  let origin ← optionalField fields "origin" Json.text?
  let properties ← requiredField fields "properties" Json.texts?
  let target ← requiredField fields "target" SchemaTarget.ofJson
  pure ⟨name, target, properties, kind, origin⟩

instance : Serial ConstraintDefinition where
  toJson := ConstraintDefinition.json
  fromJson := ConstraintDefinition.ofJson
  fromJson_toJson constraint := by
    show (do
      let kind ← ConstraintDefinitionKind.ofJson constraint.kind.json
      let origin ← optionalField [("kind".toList, constraint.kind.json),
        ("name".toList, textJson constraint.name),
        ("origin".toList, optionJson textJson constraint.origin),
        ("properties".toList, textsJson constraint.properties),
        ("target".toList, constraint.target.json)] "origin" Json.text?
      let properties ← (textsJson constraint.properties).texts?
      let target ← SchemaTarget.ofJson constraint.target.json
      pure (⟨constraint.name, target, properties, kind, origin⟩ : ConstraintDefinition)) = _
    rw [ConstraintDefinitionKind.ofJson_json, texts_textsJson, SchemaTarget.ofJson_json]
    obtain ⟨name, target, properties, kind, origin⟩ := constraint
    cases origin <;> rfl

/-! ## 5. Indexes -/

inductive StandardIndexKind where
  | lookup | range | text | point | fullText | vector | semantic
  deriving DecidableEq

def StandardIndexKind.name : StandardIndexKind → String
  | .lookup => "lookup"
  | .range => "range"
  | .text => "text"
  | .point => "point"
  | .fullText => "full_text"
  | .vector => "vector"
  | .semantic => "semantic"

def StandardIndexKind.json (kind : StandardIndexKind) : Json := textJson kind.name.toList

def StandardIndexKind.ofJson (json : Json) : Option StandardIndexKind := do
  let name ← json.text?
  [StandardIndexKind.lookup, .range, .text, .point, .fullText, .vector, .semantic].find?
    fun kind => kind.name.toList == name

@[simp] theorem StandardIndexKind.ofJson_json (kind : StandardIndexKind) :
    ofJson kind.json = some kind := by
  cases kind <;> rfl

inductive IndexTarget where
  | nodeLookup
  | relationshipLookup
  | nodeProperties (label : Text) (properties : List Text)
  | relationshipProperties (relationshipType : Text) (properties : List Text)

def IndexTarget.json : IndexTarget → Json
  | .nodeLookup => .object [("target".toList, textJson "node_lookup".toList)]
  | .relationshipLookup => .object [("target".toList, textJson "relationship_lookup".toList)]
  | .nodeProperties label properties =>
    .object [("label".toList, textJson label), ("properties".toList, textsJson properties),
      ("target".toList, textJson "node_properties".toList)]
  | .relationshipProperties relationshipType properties =>
    .object [("properties".toList, textsJson properties),
      ("relationship_type".toList, textJson relationshipType),
      ("target".toList, textJson "relationship_properties".toList)]

def IndexTarget.ofJson (json : Json) : Option IndexTarget := do
  let fields ← json.fields?
  let tag ← requiredField fields "target" Json.text?
  if tag = "node_lookup".toList then some .nodeLookup
  else if tag = "relationship_lookup".toList then some .relationshipLookup
  else if tag = "node_properties".toList then do
    let label ← requiredField fields "label" Json.text?
    let properties ← requiredField fields "properties" Json.texts?
    pure (.nodeProperties label properties)
  else if tag = "relationship_properties".toList then do
    let properties ← requiredField fields "properties" Json.texts?
    let relationshipType ← requiredField fields "relationship_type" Json.text?
    pure (.relationshipProperties relationshipType properties)
  else none

@[simp] theorem IndexTarget.ofJson_json (target : IndexTarget) :
    ofJson target.json = some target := by
  cases target with
  | nodeLookup => rfl
  | relationshipLookup => rfl
  | nodeProperties label properties =>
    show (do
      let properties ← (textsJson properties).texts?
      pure (IndexTarget.nodeProperties label properties)) = _
    rw [texts_textsJson]
    rfl
  | relationshipProperties relationshipType properties =>
    show (do
      let properties ← (textsJson properties).texts?
      pure (IndexTarget.relationshipProperties relationshipType properties)) = _
    rw [texts_textsJson]
    rfl

inductive IndexConfiguration where
  | fullText (analyzer : Text) (eventuallyConsistent : Bool)
  | vector (dimensions : Option U64) (similarityFunction quantizationType : Text)
      (defaultSearchExpansionFactor : Text) (hnswM hnswEfConstruction : U64)
  | semantic (provider : Text) (providerConfig : Json) (dimensions : U64)
      (similarityFunction : Text)

def IndexConfiguration.json : IndexConfiguration → Json
  | .fullText analyzer eventuallyConsistent =>
    .object [("analyzer".toList, textJson analyzer),
      ("eventually_consistent".toList, .bool eventuallyConsistent),
      ("kind".toList, textJson "full_text".toList)]
  | .vector dimensions similarityFunction quantizationType factor hnswM hnswEfConstruction =>
    .object [("default_search_expansion_factor".toList, textJson factor),
      ("dimensions".toList, optionJson u64Json dimensions),
      ("hnsw_ef_construction".toList, u64Json hnswEfConstruction),
      ("hnsw_m".toList, u64Json hnswM), ("kind".toList, textJson "vector".toList),
      ("quantization_type".toList, textJson quantizationType),
      ("similarity_function".toList, textJson similarityFunction)]
  | .semantic provider providerConfig dimensions similarityFunction =>
    .object [("dimensions".toList, u64Json dimensions), ("kind".toList, textJson "semantic".toList),
      ("provider".toList, textJson provider), ("provider_config".toList, providerConfig),
      ("similarity_function".toList, textJson similarityFunction)]

def IndexConfiguration.ofJson (json : Json) : Option IndexConfiguration := do
  let fields ← json.fields?
  let tag ← requiredField fields "kind" Json.text?
  if tag = "full_text".toList then do
    let analyzer ← requiredField fields "analyzer" Json.text?
    let eventuallyConsistent ← requiredField fields "eventually_consistent" Json.bool?
    pure (.fullText analyzer eventuallyConsistent)
  else if tag = "vector".toList then do
    let factor ← requiredField fields "default_search_expansion_factor" Json.text?
    let dimensions ← optionalField fields "dimensions" Json.u64?
    let hnswEfConstruction ← requiredField fields "hnsw_ef_construction" Json.u64?
    let hnswM ← requiredField fields "hnsw_m" Json.u64?
    let quantizationType ← requiredField fields "quantization_type" Json.text?
    let similarityFunction ← requiredField fields "similarity_function" Json.text?
    pure (.vector dimensions similarityFunction quantizationType factor hnswM hnswEfConstruction)
  else if tag = "semantic".toList then do
    let dimensions ← requiredField fields "dimensions" Json.u64?
    let provider ← requiredField fields "provider" Json.text?
    let providerConfig ← requiredField fields "provider_config" some
    let similarityFunction ← requiredField fields "similarity_function" Json.text?
    pure (.semantic provider providerConfig dimensions similarityFunction)
  else none

@[simp] theorem IndexConfiguration.ofJson_json (configuration : IndexConfiguration) :
    ofJson configuration.json = some configuration := by
  cases configuration with
  | fullText analyzer eventuallyConsistent => rfl
  | vector dimensions similarityFunction quantizationType factor hnswM hnswEfConstruction =>
    cases dimensions with
    | none =>
      show (do
        let hnswEfConstruction ← (u64Json hnswEfConstruction).u64?
        let hnswM ← (u64Json hnswM).u64?
        pure (IndexConfiguration.vector none similarityFunction quantizationType factor hnswM
          hnswEfConstruction)) = _
      rw [u64_u64Json, u64_u64Json]
      rfl
    | some dimensions =>
      show (do
        let dimensions ← (u64Json dimensions).u64?.map some
        let hnswEfConstruction ← (u64Json hnswEfConstruction).u64?
        let hnswM ← (u64Json hnswM).u64?
        pure (IndexConfiguration.vector dimensions similarityFunction quantizationType factor hnswM
          hnswEfConstruction)) = _
      rw [u64_u64Json, u64_u64Json, u64_u64Json]
      rfl
  | semantic provider providerConfig dimensions similarityFunction =>
    show (do
      let dimensions ← (u64Json dimensions).u64?
      pure (IndexConfiguration.semantic provider providerConfig dimensions similarityFunction)) = _
    rw [u64_u64Json]
    rfl

structure IndexDefinition where
  name : Text
  kind : StandardIndexKind
  target : IndexTarget
  owningConstraint : Option Text
  labelsOrTypes : List Text
  additionalProperties : List Text
  configuration : Option IndexConfiguration

/-- `skip_serializing_if = "Vec::is_empty"`. -/
def skippedTexts (name : String) (texts : List Text) : List (Text × Json) :=
  if texts.isEmpty then [] else [(name.toList, textsJson texts)]

/-- `skip_serializing_if = "Option::is_none"`. -/
def skippedConfiguration : Option IndexConfiguration → List (Text × Json)
  | none => []
  | some configuration => [("configuration".toList, configuration.json)]

def IndexDefinition.json (index : IndexDefinition) : Json :=
  .object (skippedTexts "additional_properties" index.additionalProperties ++
    (skippedConfiguration index.configuration ++
      (("kind".toList, index.kind.json) ::
        (skippedTexts "labels_or_types" index.labelsOrTypes ++
          [("name".toList, textJson index.name),
            ("owning_constraint".toList, optionJson textJson index.owningConstraint),
            ("target".toList, index.target.json)]))))

def IndexDefinition.ofJson (json : Json) : Option IndexDefinition := do
  let fields ← json.fields?
  let additionalProperties ← defaultedField fields "additional_properties" [] Json.texts?
  let configuration ← optionalField fields "configuration" IndexConfiguration.ofJson
  let kind ← requiredField fields "kind" StandardIndexKind.ofJson
  let labelsOrTypes ← defaultedField fields "labels_or_types" [] Json.texts?
  let name ← requiredField fields "name" Json.text?
  let owningConstraint ← optionalField fields "owning_constraint" Json.text?
  let target ← requiredField fields "target" IndexTarget.ofJson
  pure ⟨name, kind, target, owningConstraint, labelsOrTypes, additionalProperties, configuration⟩

theorem optional_some {fields : List (Text × Json)} {name : String}
    {json : Json} {value : α} (hlookup : fields.lookup name.toList = some json)
    (hnull : json ≠ .null) (hread : read json = some value) :
    optionalField fields name read = some (some value) := by
  unfold optionalField
  rw [hlookup]
  cases json with
  | null => exact absurd rfl hnull
  | _ => exact congrArg (Option.map some) hread

instance : Serial IndexDefinition where
  toJson := IndexDefinition.json
  fromJson := IndexDefinition.ofJson
  fromJson_toJson index := by
    obtain ⟨name, kind, target, owningConstraint, labelsOrTypes, additionalProperties,
      configuration⟩ := index
    unfold IndexDefinition.ofJson IndexDefinition.json
    simp only [Json.fields?, Option.bind_eq_bind, Option.bind_some]
    generalize hfields : skippedTexts "additional_properties" additionalProperties ++
      (skippedConfiguration configuration ++ (("kind".toList, kind.json) ::
        (skippedTexts "labels_or_types" labelsOrTypes ++ [("name".toList, textJson name),
          ("owning_constraint".toList, optionJson textJson owningConstraint),
          ("target".toList, target.json)]))) = fields
    have hadditional : defaultedField fields "additional_properties" [] Json.texts? =
        some additionalProperties := by
      subst hfields
      cases additionalProperties with
      | nil => cases configuration <;> cases labelsOrTypes <;> rfl
      | cons first rest => exact texts_textsJson (first :: rest)
    have hconfiguration : optionalField fields "configuration" IndexConfiguration.ofJson =
        some configuration := by
      subst hfields
      cases configuration with
      | none => cases additionalProperties <;> cases labelsOrTypes <;> rfl
      | some configuration =>
        refine optional_some ?_ ?_ (IndexConfiguration.ofJson_json configuration)
        · cases additionalProperties <;> rfl
        · cases configuration <;> simp [IndexConfiguration.json]
    have hkind : requiredField fields "kind" StandardIndexKind.ofJson = some kind := by
      subst hfields
      cases additionalProperties <;> cases configuration <;>
        exact StandardIndexKind.ofJson_json kind
    have hlabels : defaultedField fields "labels_or_types" [] Json.texts? = some labelsOrTypes := by
      subst hfields
      cases labelsOrTypes with
      | nil => cases additionalProperties <;> cases configuration <;> rfl
      | cons first rest =>
        cases additionalProperties <;> cases configuration <;>
          exact texts_textsJson (first :: rest)
    have hname : requiredField fields "name" Json.text? = some name := by
      subst hfields
      cases additionalProperties <;> cases configuration <;> cases labelsOrTypes <;> rfl
    have howning : optionalField fields "owning_constraint" Json.text? = some owningConstraint := by
      subst hfields
      cases additionalProperties <;> cases configuration <;> cases labelsOrTypes <;>
        cases owningConstraint <;> rfl
    have htarget : requiredField fields "target" IndexTarget.ofJson = some target := by
      subst hfields
      cases additionalProperties <;> cases configuration <;> cases labelsOrTypes <;>
        exact IndexTarget.ofJson_json target
    simp only [hadditional, hconfiguration, hkind, hlabels, hname, howning, htarget,
      Option.bind_some]
    rfl

/-! ## 6. The schema -/

structure SchemaState where
  graphNodes : ExtTreeMap Text GraphNodeType := ∅
  graphRelationships : ExtTreeMap Text GraphRelationshipType := ∅
  constraints : ExtTreeMap Text ConstraintDefinition := ∅
  indexes : ExtTreeMap Text IndexDefinition := ∅

def graphNodeSlot (label : Text) : Text := "graph/node/".toList ++ label

def graphRelationshipSlot (relationshipType : Text) : Text :=
  "graph/relationship/".toList ++ relationshipType

def constraintSlot (name : Text) : Text := "constraint/".toList ++ name

def indexSlot (name : Text) : Text := "index/".toList ++ name

end Lithograph.Storage
