/-
  File:      Lithograph/Storage/SchemaBlob.lean
  Subject:   The schema of a commit as the bytes of its schema object
             (`storage/schema_state_resources.rs`).

  How the JSON library writes and reads a value is a parameter (`JsonText`).

  * `fromCanonicalBlob_canonicalBlob`: a schema that is written is read back, where its objects are.
-/
import Lithograph.Storage.Decoding
import Lithograph.Storage.SchemaState

namespace Lithograph.Storage

open Std Library

/-- The JSON library: a value as bytes, and bytes as a value. -/
structure JsonText where
  write : Json → Bytes
  read : Bytes → Option Json

/-! ## 1. Schema objects -/

/-- `SchemaObject`: one definition, of whichever kind. -/
inductive SchemaObject where
  | graphNode (definition : GraphNodeType)
  | graphRelationship (definition : GraphRelationshipType)
  | constraint (definition : ConstraintDefinition)
  | index (definition : IndexDefinition)

namespace SchemaObject

/-- The name of the kind, as its tag spells it. -/
def tag : SchemaObject → String
  | .graphNode _ => "graph_node"
  | .graphRelationship _ => "graph_relationship"
  | .constraint _ => "constraint"
  | .index _ => "index"

def definitionJson : SchemaObject → Json
  | .graphNode definition => Serial.toJson definition
  | .graphRelationship definition => Serial.toJson definition
  | .constraint definition => Serial.toJson definition
  | .index definition => Serial.toJson definition

def json (object : SchemaObject) : Json :=
  .object [("definition".toList, object.definitionJson), ("object".toList, textJson object.tag.toList)]

def ofJson (json : Json) : Option SchemaObject := do
  let fields ← json.fields?
  let tag ← requiredField fields "object" Json.text?
  if tag = "graph_node".toList then
    (requiredField fields "definition" Serial.fromJson).map .graphNode
  else if tag = "graph_relationship".toList then
    (requiredField fields "definition" Serial.fromJson).map .graphRelationship
  else if tag = "constraint".toList then
    (requiredField fields "definition" Serial.fromJson).map .constraint
  else if tag = "index".toList then
    (requiredField fields "definition" Serial.fromJson).map .index
  else none

def slot : SchemaObject → Text
  | .graphNode definition => graphNodeSlot definition.label
  | .graphRelationship definition => graphRelationshipSlot definition.relationshipType
  | .constraint definition => constraintSlot definition.name
  | .index definition => indexSlot definition.name

/-- **An object that is written is read back.** -/
theorem ofJson_json (object : SchemaObject) : ofJson object.json = some object := by
  have htag : ∀ json tag, requiredField [("definition".toList, json), ("object".toList, textJson tag)]
      "object" Json.text? = some tag := fun _ _ => rfl
  have hdefinition : ∀ {α : Type} json tag (read : Json → Option α), requiredField
      [("definition".toList, json), ("object".toList, textJson tag)] "definition" read =
        read json := fun _ _ _ => rfl
  unfold ofJson json
  simp only [Json.fields?, Option.bind_eq_bind, Option.bind_some, htag, hdefinition]
  cases object <;> simp [tag, definitionJson, Serial.fromJson_toJson]

end SchemaObject

variable {blob : Bytes} {schema : SchemaState}

/-! ## 2. Encoding and decoding -/

namespace SchemaState

/-- The objects of a schema, kind by kind. -/
def objects (schema : SchemaState) : List SchemaObject :=
  schema.graphNodes.toList.map (fun e => .graphNode e.2) ++
    (schema.graphRelationships.toList.map (fun e => .graphRelationship e.2) ++
      (schema.constraints.toList.map (fun e => .constraint e.2) ++
        schema.indexes.toList.map fun e => .index e.2))

/-- `insert_checked`. -/
def insertEncoded (t : JsonText) (objects : ExtTreeMap Text Bytes) (object : SchemaObject) :
    StorageResult (ExtTreeMap Text Bytes) :=
  if objects.contains object.slot then
    .error (.corrupt ("duplicate canonical Schema slot " ++ (String.ofList object.slot).quote))
  else .ok (objects.insert object.slot (t.write object.json))

/-- `logical_objects_checked`. -/
def logicalObjects (t : JsonText) (schema : SchemaState) : StorageResult (ExtTreeMap Text Bytes) :=
  schema.objects.foldlM (insertEncoded t) ∅

/-- `canonical_blob_checked`. -/
def canonicalBlob (t : JsonText) (schema : SchemaState) : StorageResult Bytes := do
  let objects ← schema.logicalObjects t
  recordChecked "SCHEMA" (objects.toList.map Prod.snd)

/-- The message of a definition that is there already. -/
def duplicateObject (kind : String) (key : Text) : StorageError :=
  .corrupt ("duplicate " ++ kind ++ " " ++ (String.ofList key).quote)

def insertObject (schema : SchemaState) : SchemaObject → StorageResult SchemaState
  | .graphNode definition =>
    if schema.graphNodes.contains definition.label then
      .error (duplicateObject "Graph Node Type" definition.label)
    else .ok { schema with graphNodes := schema.graphNodes.insert definition.label definition }
  | .graphRelationship definition =>
    if schema.graphRelationships.contains definition.relationshipType then
      .error (duplicateObject "Graph Relationship Type" definition.relationshipType)
    else .ok { schema with
      graphRelationships := schema.graphRelationships.insert definition.relationshipType definition }
  | .constraint definition =>
    if schema.constraints.contains definition.name then
      .error (duplicateObject "Constraint" definition.name)
    else .ok { schema with constraints := schema.constraints.insert definition.name definition }
  | .index definition =>
    if schema.indexes.contains definition.name then
      .error (duplicateObject "Index" definition.name)
    else .ok { schema with indexes := schema.indexes.insert definition.name definition }

/-- `decode_json_checked`. -/
def decodeObject (t : JsonText) (field : Bytes) : StorageResult SchemaObject :=
  match (t.read field).bind SchemaObject.ofJson with
  | some object => .ok object
  | none => .error (.corrupt "invalid Schema object JSON")

/-- The loop of `decode_canonical_schema` over the fields that remain. -/
def decodeObjects (t : JsonText) : Nat → SchemaState → Option Text → ByteReader SchemaState
  | 0, schema, _ => pure schema
  | remaining + 1, schema, previousSlot => do
    let field ← nextField
    let object ← liftM (decodeObject t field)
    if previousSlot.any fun previous => !(compare previous object.slot).isLT then
      corruptReader "Schema objects are not ordered by unique canonical slot"
    else do
      let schema ← liftM (schema.insertObject object)
      decodeObjects t remaining schema (some object.slot)

/-- `decode_canonical_schema`. -/
def fromCanonicalBlob (t : JsonText) (blob : Bytes) : StorageResult SchemaState := do
  let schema ← finish (do
    recordHeader "SCHEMA"
    let count ← fieldCount
    decodeObjects t count {} none) blob
  let encoded ← schema.canonicalBlob t
  corruptWhen (encoded != blob) "Schema object is not in canonical LCE1 form"
  pure schema

variable {t : JsonText}

/-- **What is accepted is the encoding of what it says.** -/
theorem fromCanonicalBlob_canonical (h : fromCanonicalBlob t blob = .ok schema) :
    schema.canonicalBlob t = .ok blob := by
  unfold fromCanonicalBlob at h
  obtain ⟨read, _, h⟩ := bind_eq_ok.mp h
  obtain ⟨encoded, hencoded, h⟩ := bind_eq_ok.mp h
  obtain ⟨hsame, h⟩ := check_bind_eq_ok.mp h
  cases h
  rw [corruptWhen_ok] at hsame
  rw [hencoded, show encoded = blob by simpa using hsame]

/-- **Of two schemas that were read, equal bytes are the same schema.** -/
theorem canonicalBlob_inj {blob' : Bytes} {schema' : SchemaState}
    (h : fromCanonicalBlob t blob = .ok schema) (h' : fromCanonicalBlob t blob' = .ok schema') :
    blob = blob' ↔ schema = schema' := by
  have hblob := fromCanonicalBlob_canonical h
  have hblob' := fromCanonicalBlob_canonical h'
  constructor
  · intro heq
    rw [heq, h'] at h
    exact (Except.ok.inj h).symm
  · intro heq
    rw [heq, hblob'] at hblob
    exact (Except.ok.inj hblob).symm

/-! ## 3. What is written is read back -/

end SchemaState

/-- The four kinds of definitions. -/
inductive ObjectKind where
  | graphNode | graphRelationship | constraint | index
  deriving DecidableEq

/-- The slot of a kind and a name. -/
def slotOf : ObjectKind × Text → Text
  | (.graphNode, label) => graphNodeSlot label
  | (.graphRelationship, relationshipType) => graphRelationshipSlot relationshipType
  | (.constraint, name) => constraintSlot name
  | (.index, name) => indexSlot name

/-- The kind of an object and the name it has. -/
def SchemaObject.key : SchemaObject → ObjectKind × Text
  | .graphNode definition => (.graphNode, definition.label)
  | .graphRelationship definition => (.graphRelationship, definition.relationshipType)
  | .constraint definition => (.constraint, definition.name)
  | .index definition => (.index, definition.name)

theorem SchemaObject.slot_eq (object : SchemaObject) : object.slot = slotOf object.key := by
  cases object <;> rfl

namespace SchemaState

/-- What a schema has under a kind and a name. -/
def lookup (schema : SchemaState) : ObjectKind × Text → Option SchemaObject
  | (.graphNode, label) => schema.graphNodes[label]?.map .graphNode
  | (.graphRelationship, relationshipType) =>
    schema.graphRelationships[relationshipType]?.map .graphRelationship
  | (.constraint, name) => schema.constraints[name]?.map .constraint
  | (.index, name) => schema.indexes[name]?.map .index

/-- The schema with one object more. -/
def put (schema : SchemaState) : SchemaObject → SchemaState
  | .graphNode definition =>
    { schema with graphNodes := schema.graphNodes.insert definition.label definition }
  | .graphRelationship definition => { schema with
      graphRelationships := schema.graphRelationships.insert definition.relationshipType definition }
  | .constraint definition =>
    { schema with constraints := schema.constraints.insert definition.name definition }
  | .index definition =>
    { schema with indexes := schema.indexes.insert definition.name definition }

theorem lookup_put (schema : SchemaState) (object : SchemaObject) (key : ObjectKind × Text) :
    (schema.put object).lookup key = if key = object.key then some object else schema.lookup key := by
  obtain ⟨kind, name⟩ := key
  cases object <;> cases kind <;>
    simp only [put, lookup, SchemaObject.key, Prod.mk.injEq, reduceCtorEq, true_and, false_and,
      if_false, lookup_insert] <;>
    (split <;> rfl)

theorem ext_lookup {schema' : SchemaState} (h : ∀ key, schema.lookup key = schema'.lookup key) :
    schema = schema' := by
  have hmap : ∀ {α : Type} {f : α → SchemaObject} {m m' : ExtTreeMap Text α},
      Function.Injective f → (∀ name : Text, m[name]?.map f = m'[name]?.map f) → m = m' := by
    intro α f m m' hinj hsame
    exact ExtTreeMap.ext_getElem? fun name => Option.map_injective hinj (hsame name)
  obtain ⟨graphNodes, graphRelationships, constraints, indexes⟩ := schema
  obtain ⟨graphNodes', graphRelationships', constraints', indexes'⟩ := schema'
  congr 1
  · exact hmap (fun _ _ => SchemaObject.graphNode.inj) fun name => h (.graphNode, name)
  · exact hmap (fun _ _ => SchemaObject.graphRelationship.inj) fun name =>
      h (.graphRelationship, name)
  · exact hmap (fun _ _ => SchemaObject.constraint.inj) fun name => h (.constraint, name)
  · exact hmap (fun _ _ => SchemaObject.index.inj) fun name => h (.index, name)

variable {object : SchemaObject} {bytes : ExtTreeMap Text Bytes}

theorem mem_objects : object ∈ schema.objects ↔ ∃ key, schema.lookup key = some object := by
  have hmap : ∀ {α : Type} {f : α → SchemaObject} {m : ExtTreeMap Text α},
      object ∈ m.toList.map (fun e => f e.2) ↔ ∃ name : Text, m[name]?.map f = some object := by
    intro α f m
    rw [List.mem_map]
    constructor
    · intro h
      obtain ⟨e, he, hobject⟩ := h
      exact ⟨e.1, by rw [lookup_of_mem he, ← hobject]; rfl⟩
    · intro h
      obtain ⟨name, hname⟩ := h
      obtain ⟨definition, hdefinition, hobject⟩ := Option.map_eq_some_iff.mp hname
      exact ⟨(name, definition), mem_of_lookup hdefinition, hobject⟩
  unfold objects
  simp only [List.mem_append, hmap]
  constructor
  · intro h
    rcases h with ⟨name, h⟩ | ⟨name, h⟩ | ⟨name, h⟩ | ⟨name, h⟩
    · exact ⟨(.graphNode, name), h⟩
    · exact ⟨(.graphRelationship, name), h⟩
    · exact ⟨(.constraint, name), h⟩
    · exact ⟨(.index, name), h⟩
  · intro h
    obtain ⟨⟨kind, name⟩, h⟩ := h
    cases kind
    · exact .inl ⟨name, h⟩
    · exact .inr (.inl ⟨name, h⟩)
    · exact .inr (.inr (.inl ⟨name, h⟩))
    · exact .inr (.inr (.inr ⟨name, h⟩))

/-- A schema as the commands make it: each definition stands under the name it has, and the JSON
    library reads what it wrote. -/
structure Writable (t : JsonText) (schema : SchemaState) : Prop where
  keyed : ∀ key object, schema.lookup key = some object → object.key = key
  readBack : ∀ object ∈ schema.objects, t.read (t.write object.json) = some object.json

/-- The objects as they are written: by slot, each slot once. -/
structure Listed (t : JsonText) (schema : SchemaState) (listed : List SchemaObject)
    (encoded : List Bytes) : Prop where
  ordered : listed.Pairwise fun a b => (compare a.slot b.slot).isLT = true
  members : ∀ object, object ∈ listed ↔ object ∈ schema.objects
  encoded : encoded = listed.map fun object => t.write object.json

theorem insertEncoded_fold :
    ∀ {pending : List SchemaObject} {seen : ExtTreeMap Text SchemaObject},
      (∀ (k : Text) (object : SchemaObject), seen[k]? = some object → object.slot = k) →
      pending.foldlM (insertEncoded t) (seen.map fun _ (object : SchemaObject) =>
        t.write object.json) = .ok bytes →
        ∃ all : ExtTreeMap Text SchemaObject,
          bytes = all.map (fun _ (object : SchemaObject) => t.write object.json) ∧
          (∀ (k : Text) (object : SchemaObject), all[k]? = some object → object.slot = k) ∧
          ∀ object, (∃ k : Text, all[k]? = some object) ↔
            (∃ k : Text, seen[k]? = some object) ∨ object ∈ pending
  | [], seen, hseen, h => by
    cases h
    exact ⟨seen, rfl, hseen, fun object => by simp⟩
  | object :: pending, seen, hseen, h => by
    obtain ⟨next, hnext, h⟩ := bind_eq_ok.mp h
    unfold insertEncoded at hnext
    split at hnext
    · cases hnext
    · rename_i hfresh
      cases hnext
      have hnone : seen[object.slot]? = none := by
        simpa using hfresh
      have hmap : (seen.map fun _ object => t.write object.json).insert object.slot
          (t.write object.json) =
          (seen.insert object.slot object).map fun _ object => t.write object.json := by
        refine ExtTreeMap.ext_getElem? fun k => ?_
        rw [lookup_insert, ExtTreeMap.getElem?_map, ExtTreeMap.getElem?_map,
          lookup_insert]
        split <;> rfl
      rw [hmap] at h
      obtain ⟨all, hbytes, hslots, hmembers⟩ := insertEncoded_fold (fun k other hother => by
        rw [lookup_insert] at hother
        split at hother
        · rename_i hk
          cases hother
          exact hk.symm
        · exact hseen k other hother) h
      refine ⟨all, hbytes, hslots, fun other => (hmembers other).trans ?_⟩
      have hinsert : (∃ k : Text, (seen.insert object.slot object)[k]? = some other) ↔
          (∃ k : Text, seen[k]? = some other) ∨ other = object := by
        constructor
        · intro hother
          obtain ⟨k, hk⟩ := hother
          rw [lookup_insert] at hk
          split at hk
          · cases hk
            exact .inr rfl
          · exact .inl ⟨k, hk⟩
        · intro hother
          rcases hother with ⟨k, hk⟩ | rfl
          · refine ⟨k, ?_⟩
            have hne : k ≠ object.slot := by
              intro hk'
              rw [hk', hnone] at hk
              cases hk
            rw [lookup_insert, if_neg hne, hk]
          · exact ⟨other.slot, by rw [lookup_insert, if_pos rfl]⟩
      rw [hinsert, or_assoc, List.mem_cons]

theorem logicalObjects_bySlot (h : schema.logicalObjects t = .ok bytes) :
    ∃ all : ExtTreeMap Text SchemaObject,
      bytes = all.map (fun _ (object : SchemaObject) => t.write object.json) ∧
      (∀ (k : Text) (object : SchemaObject), all[k]? = some object → object.slot = k) ∧
      ∀ object, (∃ k : Text, all[k]? = some object) ↔ object ∈ schema.objects := by
  unfold logicalObjects at h
  have hnone : ∀ (k : Text) (object : SchemaObject),
      (∅ : ExtTreeMap Text SchemaObject)[k]? = some object → object.slot = k := by
    intro k object hk
    simp at hk
  obtain ⟨all, hbytes, hslots, hmembers⟩ := insertEncoded_fold hnone h
  exact ⟨all, hbytes, hslots, fun object => (hmembers object).trans (by simp)⟩

/-- **The objects of a schema that can be written, as they are written.** -/
theorem logicalObjects_listed (h : schema.logicalObjects t = .ok bytes) :
    ∃ listed, Listed t schema listed (bytes.toList.map Prod.snd) := by
  obtain ⟨all, rfl, hslots, hmembers⟩ := logicalObjects_bySlot h
  refine ⟨all.toList.map Prod.snd, ?_, fun object => ?_, ?_⟩
  · have hordered : all.toList.Pairwise fun a b => compare a.1 b.1 = .lt :=
      ExtTreeMap.ordered_keys_toList
    rw [List.pairwise_map]
    refine hordered.imp_of_mem fun {a b} ha hb hlt => ?_
    rw [hslots a.1 a.2 (lookup_of_mem ha), hslots b.1 b.2 (lookup_of_mem hb), hlt]
    rfl
  · rw [← hmembers object, List.mem_map]
    refine ⟨fun h => ?_, fun h => ?_⟩
    · obtain ⟨e, he, rfl⟩ := h
      exact ⟨e.1, lookup_of_mem he⟩
    · obtain ⟨k, hk⟩ := h
      exact ⟨(k, object), mem_of_lookup hk, rfl⟩
  · rw [ExtTreeMap.toList_map, List.map_map, List.map_map]
    rfl

theorem insertObject_put (h : schema.lookup object.key = none) :
    schema.insertObject object = .ok (schema.put object) := by
  have hfresh : ∀ {α : Type} {f : α → SchemaObject} {m : ExtTreeMap Text α} {name : Text},
      m[name]?.map f = none → m.contains name = false := by
    intro α f m name hnone
    rw [ExtTreeMap.contains_eq_isSome_getElem?, Option.map_eq_none_iff.mp hnone]
    rfl
  cases object <;>
    (unfold insertObject
     dsimp only
     rw [hfresh h]
     rfl)

theorem decodeObjects_reads : ∀ {listed : List SchemaObject} {schema : SchemaState}
    {previous : Option Text},
    listed.Pairwise (fun a b => (compare a.slot b.slot).isLT = true) →
    (∀ object ∈ listed, t.read (t.write object.json) = some object.json) →
    (∀ object ∈ listed, (t.write object.json).length < 2 ^ 64) →
    (∀ object ∈ listed, schema.lookup object.key = none) →
    (∀ object ∈ listed, ∀ slot, previous = some slot → (compare slot object.slot).isLT = true) →
      Reads (decodeObjects t listed.length schema previous) (listed.foldl put schema)
        ((listed.map fun object => t.write object.json).flatMap fieldBytes)
  | [], schema, _, _, _, _, _, _ => reads_pure schema
  | object :: listed, schema, previous, hordered, hread, hsize, hfresh, hprevious => by
    obtain ⟨hhead, htail⟩ := List.pairwise_cons.mp hordered
    have hobject : decodeObject t (t.write object.json) = .ok object := by
      unfold decodeObject
      rw [hread object List.mem_cons_self, Option.bind_some, SchemaObject.ofJson_json]
    have hup : (previous.any fun slot => !(compare slot object.slot).isLT) = false := by
      cases hp : previous with
      | none => rfl
      | some slot =>
        rw [Option.any_some, hprevious object List.mem_cons_self slot hp]
        rfl
    have hrest : Reads (decodeObjects t listed.length (schema.put object) (some object.slot))
        (listed.foldl put (schema.put object))
        ((listed.map fun object => t.write object.json).flatMap fieldBytes) := by
      refine decodeObjects_reads htail (fun other h => hread other (.tail _ h))
        (fun other h => hsize other (.tail _ h)) (fun other h => ?_)
        fun other h slot hslot => ?_
      · have hne : other.key ≠ object.key := by
          intro hkey
          have hlt := hhead other h
          rw [other.slot_eq, hkey, ← object.slot_eq, ReflOrd.compare_self] at hlt
          cases hlt
        rw [lookup_put, if_neg hne]
        exact hfresh other (.tail _ h)
      · cases hslot
        exact hhead other h
    unfold decodeObjects
    refine (nextField_reads (hsize object (.head _))).bind ?_
    intro offset rest
    rw [hobject]
    show StateT.run (if _ then _ else _) _ = _
    rw [if_neg (by rw [hup]; exact Bool.false_ne_true),
      insertObject_put (hfresh object (.head _))]
    exact hrest offset rest

theorem lookup_foldl_put {key : ObjectKind × Text} : ∀ {listed : List SchemaObject}
    {schema : SchemaState}, (∀ object ∈ listed, object.key ≠ key) →
      (listed.foldl put schema).lookup key = schema.lookup key
  | [], _, _ => rfl
  | object :: listed, schema, h => by
    rw [List.foldl_cons, lookup_foldl_put fun other hother => h other (.tail _ hother),
      lookup_put, if_neg fun hkey => h object (.head _) hkey.symm]

theorem lookup_foldl_mem : ∀ {listed : List SchemaObject}
    {schema : SchemaState}, listed.Pairwise (fun a b => (compare a.slot b.slot).isLT = true) →
      object ∈ listed → (listed.foldl put schema).lookup object.key = some object
  | first :: listed, schema, hordered, hmem => by
    obtain ⟨hhead, htail⟩ := List.pairwise_cons.mp hordered
    rcases List.mem_cons.mp hmem with rfl | hmem
    · rw [List.foldl_cons, lookup_foldl_put fun other hother hkey => ?_, lookup_put, if_pos rfl]
      have hlt := hhead other hother
      rw [other.slot_eq, hkey, ← object.slot_eq, ReflOrd.compare_self] at hlt
      cases hlt
    · rw [List.foldl_cons]
      exact lookup_foldl_mem htail hmem

/-- **A schema that is written is read back**, where the JSON library reads what it wrote. -/
theorem fromCanonicalBlob_canonicalBlob (hw : schema.Writable t)
    (h : schema.canonicalBlob t = .ok blob) : fromCanonicalBlob t blob = .ok schema := by
  have hblob := h
  unfold canonicalBlob at h
  obtain ⟨bytes, hobjects, h⟩ := bind_eq_ok.mp h
  obtain ⟨listed, hlisted⟩ := logicalObjects_listed hobjects
  rw [hlisted.encoded] at h
  obtain ⟨hsize, hrecord⟩ := recordChecked_ok h
  -- what is read is the schema
  have hschema : listed.foldl put {} = schema := by
    refine ext_lookup fun key => ?_
    cases hlookup : schema.lookup key with
    | some object =>
      have hkey := hw.keyed key object hlookup
      rw [← hkey]
      exact lookup_foldl_mem hlisted.ordered
        ((hlisted.members object).mpr (mem_objects.mpr ⟨key, hlookup⟩))
    | none =>
      rw [lookup_foldl_put fun object hobject hkey => ?_]
      · obtain ⟨kind, name⟩ := key
        cases kind <;> simp [lookup]
      · obtain ⟨key', hlookup'⟩ := mem_objects.mp ((hlisted.members object).mp hobject)
        rw [← hw.keyed key' object hlookup', hkey, hlookup] at hlookup'
        cases hlookup'
  have hreads : Reads (do
      recordHeader "SCHEMA"
      let count ← fieldCount
      decodeObjects t count {} none) schema blob := by
    rw [hrecord, record_eq, ← hschema]
    refine (recordHeader_reads (by decide)).bind (counted_reads hsize.count ?_)
    rw [List.length_map]
    refine decodeObjects_reads hlisted.ordered
      (fun object hobject => hw.readBack object ((hlisted.members object).mp hobject))
      (fun object hobject => hsize.each _ (List.mem_map_of_mem hobject)) (fun object _ => ?_)
      fun object _ slot hslot => by cases hslot
    obtain ⟨kind, name⟩ := object.key
    cases kind <;> simp [lookup]
  unfold fromCanonicalBlob
  rw [finish_ok hreads, ok_bind, hblob, ok_bind]
  have hsame : corruptWhen (blob != blob) "Schema object is not in canonical LCE1 form" = .ok () := by
    rw [corruptWhen_ok, bne_self_eq_false]
  rw [hsame]
  rfl

end SchemaState

end Lithograph.Storage
