/-
  File:      Lithograph/Query/Schema/Validate.lean
  Subject:   The check of a snapshot against the definitions and constraints of a schema
             (`query/schema/validate.rs`, `query/schema/validate/controlled.rs`).

  Each definition goes through its nodes or relationships, page by page. Work accounting and
  cancellation are left out.
-/
import Lithograph.Library.Distinct
import Lithograph.Query.Schema.Equality
import Lithograph.Storage.Answers
import Lithograph.Storage.Invariants
import Lithograph.Storage.SchemaState

namespace Lithograph

open Std Library

namespace Storage

/-! ## 1. Types of values -/

def vectorCoordinateName : VectorCoordinateType → String
  | .i8 => "INTEGER8"
  | .i16 => "INTEGER16"
  | .i32 => "INTEGER32"
  | .i64 => "INTEGER64"
  | .f32 => "FLOAT32"
  | .f64 => "FLOAT64"

def eqIgnoreAsciiCase (a b : Text) : Bool := a.map Char.toLower == b.map Char.toLower

mutual

def PropertyType.accepts : PropertyType → PropertyValue → Bool
  | .any, _ => true
  | .boolean, .boolean _ => true
  | .integer, .integer _ => true
  | .float, .float _ => true
  | .string, .string _ => true
  | .date, .date _ => true
  | .localTime, .localTime _ => true
  | .zonedTime, .time _ _ => true
  | .localDateTime, .localDateTime _ _ => true
  | .zonedDateTime, .zonedDateTime _ => true
  | .duration, .duration _ _ _ _ => true
  | .point, .point _ => true
  | .uuid, .uuid _ => true
  | .vector coordinate dimension, .vector vector =>
    dimension.val == vector.dimension &&
      eqIgnoreAsciiCase (vectorCoordinateName vector.coordinateType).toList coordinate
  | .list element, .list values => values.all element.accepts
  | .union members, value => anyAccepts members value
  | _, _ => false

/-- One of the members of a union accepts the value. -/
def anyAccepts : List PropertyType → PropertyValue → Bool
  | [], _ => false
  | member :: rest, value => member.accepts value || anyAccepts rest value

end

mutual

def sameType : PropertyType → PropertyType → Bool
  | .list left, .list right => sameType left right
  | .union left, .union right => sameTypes left right
  | .vector left dimension, .vector right other => dimension == other && left == right
  | left, right => left.tag == right.tag

/-- The members of two unions, one by one. -/
def sameTypes : List PropertyType → List PropertyType → Bool
  | [], [] => true
  | left :: rest, right :: rest' => sameType left right && sameTypes rest rest'
  | _, _ => false

end

def sameRule (left right : PropertyRule) : Bool :=
  left.required == right.required && sameType left.propertyType right.propertyType

def sameProperties (left right : ExtTreeMap Text PropertyRule) : Bool :=
  left.size == right.size && (left.toList.zip right.toList).all fun (l, r) =>
    l.1 == r.1 && sameRule l.2 r.2

def sameNode (left right : GraphNodeType) : Bool :=
  left.label == right.label && left.impliedLabels.keys == right.impliedLabels.keys &&
    sameProperties left.properties right.properties

def sameRelationship (left right : GraphRelationshipType) : Bool :=
  left.sourceIdentifying == right.sourceIdentifying &&
    left.targetIdentifying == right.targetIdentifying &&
    left.relationshipType == right.relationshipType && left.sourceLabel == right.sourceLabel &&
    left.targetLabel == right.targetLabel && sameProperties left.properties right.properties

def sameTarget : SchemaTarget → SchemaTarget → Bool
  | .node left, .node right => left == right
  | .relationship left, .relationship right => left == right
  | _, _ => false

def sameConstraintKind : ConstraintDefinitionKind → ConstraintDefinitionKind → Bool
  | .type left, .type right => sameRule left right
  | .key, .key => true
  | .unique, .unique => true
  | .notNull, .notNull => true
  | _, _ => false

def sameConstraint (left right : ConstraintDefinition) : Bool :=
  left.name == right.name && sameTarget left.target right.target &&
    left.properties == right.properties && sameConstraintKind left.kind right.kind &&
    left.origin == right.origin

end Storage

variable {id : Int}

namespace Query

open Storage

def element : OwnerKind → String
  | .node => "node"
  | .relationship => "relationship"

def QueryError.constraint (message : String) : QueryError := ⟨.constraint, message⟩

/-! ## 2. The check -/

/-- `validate_rule`, on the value a property has or on none. -/
def validateRule (owner : Text) (kind : OwnerKind) (id : Int) (property : Text)
    (rule : PropertyRule) (value : Option PropertyValue) : QueryResult Unit :=
  match value with
  | none =>
    refuseWhen rule.required (.constraint (String.ofList owner ++ " requires " ++ element kind ++
      " " ++ toString id ++ " property " ++ String.ofList property))
  | some value =>
    refuseWhen (!rule.propertyType.accepts value) (.constraint (String.ofList owner ++
      " rejects the type of " ++ element kind ++ " " ++ toString id ++ " property " ++
      String.ofList property))

def missingProperty (constraint : ConstraintDefinition) (kind : OwnerKind) (id : Int)
    (property : Text) : QueryError :=
  .constraint ("constraint " ++ String.ofList constraint.name ++ " requires " ++ element kind ++
    " " ++ toString id ++ " property " ++ String.ofList property)

def firstProperty (constraint : ConstraintDefinition) : QueryResult Text :=
  match constraint.properties.head? with
  | some property => .ok property
  | none => .error (.internal "constraint has no property")

/-- The error of `record_uniqueness_key`. -/
def keyConflict (constraint : ConstraintDefinition) (kind : OwnerKind) (existing id : Int) :
    QueryError :=
  .constraint ("constraint " ++ String.ofList constraint.name ++ " conflicts between " ++
    element kind ++ " " ++ toString existing ++ " and " ++ element kind ++ " " ++ toString id)

/-- `record_uniqueness_key`, on the table of the keys seen so far. -/
def recordUniquenessKey (constraint : ConstraintDefinition) (kind : OwnerKind)
    (seen : ExtTreeMap Bytes Int) (id : Int) (key : Bytes) : QueryResult (ExtTreeMap Bytes Int) :=
  match seen[key]? with
  | none => pure (seen.insert key id)
  | some existing => .error (keyConflict constraint kind existing id)

/-- `Validation`: the dictionaries of a database and a snapshot of it. -/
structure Validation where
  connection : Identities
  snapshot : IndexedSnapshot

namespace Validation

variable (v : Validation)

def pageSize : Nat := 64

/-- The nodes that `nodes` visits, page by page. -/
def nodes (label : LabelId) : List NodeId := v.snapshot.scanNodes (some label) pageSize

/-- The relationships that `relationships` visits, page by page. -/
def relationships (type : RelationshipTypeId) : List RelationshipRecord :=
  (v.snapshot.scanRelationships none pageSize).filter fun relationship =>
    relationship.typeId = type

def hasLabel (node : NodeId) (expected : Option LabelId) : Bool :=
  match expected with
  | none => false
  | some expected => (v.snapshot.snapshot.visitNodeLabels node).contains expected

/-- `with_property`: the value it hands on. -/
def withProperty (kind : OwnerKind) (id : Int) (property : Text) : Option PropertyValue :=
  match v.connection.propertyKeys.find property with
  | none => none
  | some key => v.snapshot.snapshot.property (kind, id, key)

def properties (owner : Text) (kind : OwnerKind) (id : Int)
    (rules : ExtTreeMap Text PropertyRule) : QueryResult Unit :=
  rules.toList.forM fun e => validateRule owner kind id e.1 e.2 (v.withProperty kind id e.1)

/-- What `graph_node` checks of one node. -/
def graphNodeInstance (definition : GraphNodeType) (node : NodeId) : QueryResult Unit := do
  definition.impliedLabels.keys.forM fun implied =>
    refuseWhen (!v.hasLabel node (v.connection.labels.find implied)) (.constraint
      ("Graph Type node " ++ String.ofList definition.label ++ " is missing implied label " ++
        String.ofList implied))
  v.properties definition.label .node node definition.properties

def graphNode (definition : GraphNodeType) : QueryResult Unit :=
  match v.connection.labels.find definition.label with
  | none => .ok ()
  | some label => (v.nodes label).forM (v.graphNodeInstance definition)

/-- `endpoint`, with the label resolved as `resolve_optional_label` does. -/
def endpoint (definition : GraphRelationshipType) (node : NodeId) (expected : Option Text)
    (endpoint : String) : QueryResult Unit :=
  match expected with
  | none => .ok ()
  | some label =>
    refuseWhen (!v.hasLabel node (v.connection.labels.find label)) (.constraint
      ("Graph Type relationship " ++ String.ofList definition.relationshipType ++ " " ++ endpoint ++
        " is missing implied label " ++ String.ofList label))

/-- What `graph_relationship` checks of one relationship. -/
def graphRelationshipInstance (definition : GraphRelationshipType)
    (relationship : RelationshipRecord) : QueryResult Unit := do
  v.endpoint definition relationship.source definition.sourceLabel "source"
  v.endpoint definition relationship.target definition.targetLabel "target"
  v.properties definition.relationshipType .relationship relationship.id definition.properties

def graphRelationship (definition : GraphRelationshipType) : QueryResult Unit :=
  match v.connection.relationshipTypes.find definition.relationshipType with
  | none => .ok ()
  | some type => (v.relationships type).forM (v.graphRelationshipInstance definition)

/-- One property of `uniqueness`: its part of the key, where it has a value. -/
def uniquenessPart (constraint : ConstraintDefinition) (kind : OwnerKind) (id : Int)
    (property : Text) : QueryResult (Option Bytes) :=
  match v.withProperty kind id property with
  | none =>
    match constraint.kind with
    | .key => .error (missingProperty constraint kind id property)
    | _ => .ok none
  | some value => do
    let key ← equalityKey value
    pure (some (key.getD (nonReflexiveKey id)))

/-- The loop of `uniqueness` over the properties that are left. -/
def uniquenessFrom (constraint : ConstraintDefinition) (kind : OwnerKind) (id : Int) :
    List Text → Bytes → QueryResult (Option Bytes)
  | [], key => .ok (some key)
  | property :: rest, key => do
    let part ← v.uniquenessPart constraint kind id property
    match part with
    | none => pure none
    | some part => uniquenessFrom constraint kind id rest (key ++ keyPart part)

def uniqueness (constraint : ConstraintDefinition) (kind : OwnerKind) (id : Int) :
    QueryResult (Option Bytes) :=
  v.uniquenessFrom constraint kind id constraint.properties (u64Bytes constraint.properties.length)

/-- `constraint_instance`, on the table of the keys seen so far. -/
def constraintInstance (constraint : ConstraintDefinition) (kind : OwnerKind)
    (seen : ExtTreeMap Bytes Int) (id : Int) : QueryResult (ExtTreeMap Bytes Int) :=
  match constraint.kind with
  | .key | .unique => do
    let key ← v.uniqueness constraint kind id
    match key with
    | none => pure seen
    | some key => recordUniquenessKey constraint kind seen id key
  | .notNull => do
    let property ← firstProperty constraint
    refuseWhen (v.withProperty kind id property).isNone
      (missingProperty constraint kind id property)
    pure seen
  | .type rule => do
    let property ← firstProperty constraint
    validateRule constraint.name kind id property rule (v.withProperty kind id property)
    pure seen

/-- The owners a constraint is about, where its target has a name. -/
def owners (target : SchemaTarget) : OwnerKind × List Int :=
  match target with
  | .node label =>
    (.node, ((v.connection.labels.find label).map v.nodes).getD [])
  | .relationship type =>
    (.relationship, ((v.connection.relationshipTypes.find type).map fun type =>
      (v.relationships type).map fun record => record.id).getD [])

/-- `constraint`, with a table of keys of its own. -/
def constraint (constraint : ConstraintDefinition) : QueryResult Unit := do
  let owners := v.owners constraint.target
  let _ ← owners.2.foldlM (v.constraintInstance constraint owners.1) ∅
  pure ()

def changed {α : Type} (previous : Option α) (same : α → Bool) : Bool :=
  match previous with
  | some previous => !same previous
  | none => true

/-- `validate_schema_transition_controlled`. -/
def validateSchemaTransition (previous next : SchemaState) : QueryResult Unit := do
  next.graphNodes.toList.forM fun e =>
    if changed previous.graphNodes[e.1]? fun old => sameNode old e.2 then v.graphNode e.2
    else .ok ()
  next.graphRelationships.toList.forM fun e =>
    if changed previous.graphRelationships[e.1]? fun old => sameRelationship old e.2
    then v.graphRelationship e.2 else .ok ()
  next.constraints.toList.forM fun e =>
    if changed previous.constraints[e.1]? fun old => sameConstraint old e.2 then v.constraint e.2
    else .ok ()

/-- The check of every definition and every constraint: nothing was there before. -/
def validateSchema (schema : SchemaState) : QueryResult Unit := v.validateSchemaTransition {} schema

/-! ## 3. What the check looks at -/

section Looks

variable {v} {node : NodeId}

theorem mem_nodes (hs : v.snapshot.Sound) {label : LabelId} :
    node ∈ v.nodes label ↔ v.snapshot.snapshot.graph.labels[(node, label)]?.isSome := by
  unfold nodes
  rw [IndexedSnapshot.scanNodes_eq hs, List.mem_map]
  have hrow : ∀ u : Unit, (node, u) ∈ v.snapshot.graphNodes (some label) ↔
      ((node, label), u) ∈ v.snapshot.snapshot.graph.labels.toList := fun u =>
    IndexedSnapshot.mem_byLabel
  constructor
  · rintro ⟨⟨node, u⟩, hmem, rfl⟩
    exact Option.isSome_of_eq_some (lookup_of_mem ((hrow u).mp hmem))
  · intro h
    obtain ⟨u, hu⟩ := Option.isSome_iff_exists.mp h
    exact ⟨(node, u), (hrow u).mpr (mem_of_lookup hu), rfl⟩

theorem nodup_keys {K V : Type} [Ord K] [TransOrd K] {entries : List (K × V)}
    (h : entries.Pairwise KeyLt) : (entries.map Prod.fst).Nodup := by
  rw [List.nodup_iff_pairwise_ne, List.pairwise_map]
  refine h.imp fun {a b} hab heq => ?_
  unfold KeyLt at hab
  rw [heq] at hab
  exact compare_lt_irrefl _ hab

theorem nodes_nodup (hs : v.snapshot.Sound) (label : LabelId) : (v.nodes label).Nodup := by
  unfold nodes
  rw [IndexedSnapshot.scanNodes_eq hs]
  exact nodup_keys (IndexedSnapshot.graphNodes_sorted (some label))

theorem relationships_eq (v : Validation) (type : RelationshipTypeId) : v.relationships type =
    (v.snapshot.snapshot.graph.relationships.toList.map Prod.snd).filter fun record =>
      record.typeId = type := by
  unfold relationships
  rw [IndexedSnapshot.scanRelationships_eq]
  have hall : v.snapshot.graphRelationships none =
      v.snapshot.snapshot.graph.relationships.toList := List.filter_eq_self.mpr fun e _ => rfl
  rw [hall]

theorem mem_relationships (hs : v.snapshot.Sound) {type : RelationshipTypeId}
    {record : RelationshipRecord} : record ∈ v.relationships type ↔
      v.snapshot.snapshot.graph.relationships[record.id]? = some record ∧ record.typeId = type := by
  rw [relationships_eq, List.mem_filter, decide_eq_true_eq]
  refine and_congr_left fun _ => ?_
  rw [List.mem_map]
  constructor
  · rintro ⟨e, he, rfl⟩
    have hentry := lookup_of_mem he
    rw [IndexedSnapshot.graph_keyed hs e.1 e.2 hentry]
    exact hentry
  · intro h
    exact ⟨(record.id, record), mem_of_lookup h, rfl⟩

theorem relationships_nodup (hs : v.snapshot.Sound) (type : RelationshipTypeId) :
    ((v.relationships type).map fun record => record.id).Nodup := by
  have hids : (v.snapshot.snapshot.graph.relationships.toList.map Prod.snd).map
      (fun record => record.id) = v.snapshot.snapshot.graph.relationships.toList.map Prod.fst := by
    rw [List.map_map]
    refine List.map_congr_left fun e he => ?_
    exact IndexedSnapshot.graph_keyed hs e.1 e.2 (lookup_of_mem he)
  rw [relationships_eq]
  refine (List.Sublist.map _ List.filter_sublist).nodup ?_
  rw [hids]
  exact nodup_keys (sorted_toList _)

theorem mem_owners_node (hs : v.snapshot.Sound) {label : Text} :
    id ∈ (v.owners (.node label)).2 ↔ ∃ label', v.connection.labels.find label = some label' ∧
      v.snapshot.snapshot.graph.labels[(id, label')]?.isSome := by
  simp only [owners]
  cases v.connection.labels.find label with
  | none => simp
  | some label' => simp [mem_nodes hs]

theorem mem_owners_relationship (hs : v.snapshot.Sound) {type : Text} :
    id ∈ (v.owners (.relationship type)).2 ↔ ∃ type' record,
      v.connection.relationshipTypes.find type = some type' ∧
        v.snapshot.snapshot.graph.relationships[id]? = some record ∧ record.typeId = type' := by
  simp only [owners]
  cases v.connection.relationshipTypes.find type with
  | none => simp
  | some type' =>
    simp only [Option.map_some, Option.getD_some, List.mem_map, Option.some.injEq]
    constructor
    · rintro ⟨record, hmem, rfl⟩
      obtain ⟨hrecord, htype⟩ := (mem_relationships hs).mp hmem
      exact ⟨type', record, rfl, hrecord, htype⟩
    · rintro ⟨_, record, rfl, hrecord, htype⟩
      have hid := IndexedSnapshot.graph_keyed hs id record hrecord
      exact ⟨record, (mem_relationships hs).mpr ⟨hid ▸ hrecord, htype⟩, hid⟩

theorem owners_nodup (hs : v.snapshot.Sound) (target : SchemaTarget) :
    (v.owners target).2.Nodup := by
  cases target with
  | node label =>
    simp only [owners]
    cases v.connection.labels.find label with
    | none => exact List.nodup_nil
    | some label' => exact nodes_nodup hs label'
  | relationship type =>
    simp only [owners]
    cases v.connection.relationshipTypes.find type with
    | none => exact List.nodup_nil
    | some type' => exact relationships_nodup hs type'

/-! ## 4. When it passes -/

theorem graphNode_ok {definition : GraphNodeType} : v.graphNode definition = .ok () ↔
    ∀ label, v.connection.labels.find definition.label = some label →
      ∀ node ∈ v.nodes label, v.graphNodeInstance definition node = .ok () := by
  unfold graphNode
  cases v.connection.labels.find definition.label with
  | none => simp
  | some label =>
    simp only [forM_eq_ok, Option.some.injEq]
    constructor
    · rintro h _ rfl node hnode
      exact h node hnode
    · intro h node hnode
      exact h label rfl node hnode

theorem graphRelationship_ok {definition : GraphRelationshipType} :
    v.graphRelationship definition = .ok () ↔
      ∀ type, v.connection.relationshipTypes.find definition.relationshipType = some type →
        ∀ record ∈ v.relationships type,
          v.graphRelationshipInstance definition record = .ok () := by
  unfold graphRelationship
  cases v.connection.relationshipTypes.find definition.relationshipType with
  | none => simp
  | some type =>
    simp only [forM_eq_ok, Option.some.injEq]
    constructor
    · rintro h _ rfl record hrecord
      exact h record hrecord
    · intro h record hrecord
      exact h type rfl record hrecord

/-- What one owner brings to the check of a constraint: a key, or nothing. -/
def instanceKey (v : Validation) (constraint : ConstraintDefinition) (kind : OwnerKind)
    (id : Int) : QueryResult (Option Bytes) :=
  match constraint.kind with
  | .key | .unique => v.uniqueness constraint kind id
  | .notNull => do
    let property ← firstProperty constraint
    refuseWhen (v.withProperty kind id property).isNone
      (missingProperty constraint kind id property)
    pure none
  | .type rule => do
    let property ← firstProperty constraint
    validateRule constraint.name kind id property rule (v.withProperty kind id property)
    pure none

theorem constraintInstance_eq (v : Validation) (constraint : ConstraintDefinition)
    (kind : OwnerKind) : v.constraintInstance constraint kind =
      recordDistinct (v.instanceKey constraint kind) (keyConflict constraint kind) := by
  funext seen id
  unfold constraintInstance recordDistinct instanceKey
  cases constraint.kind with
  | key | unique =>
    cases v.uniqueness constraint kind id with
    | error error => rfl
    | ok key =>
      simp only [ok_bind]
      cases key with
      | none => rfl
      | some key =>
        simp only [recordUniquenessKey]
        cases seen[key]? <;> rfl
  | notNull =>
    cases firstProperty constraint with
    | error error => rfl
    | ok property =>
      simp only [ok_bind]
      cases refuseWhen (v.withProperty kind id property).isNone
        (missingProperty constraint kind id property) <;> rfl
  | type rule =>
    cases firstProperty constraint with
    | error error => rfl
    | ok property =>
      simp only [ok_bind]
      cases validateRule constraint.name kind id property rule (v.withProperty kind id property) <;>
        rfl

/-- **A constraint passes** where its owners do and no two share a key. -/
theorem constraint_ok {constraint : ConstraintDefinition} : v.constraint constraint = .ok () ↔
    ∃ last, (v.owners constraint.target).2.foldlM (recordDistinct
      (v.instanceKey constraint (v.owners constraint.target).1)
      (keyConflict constraint (v.owners constraint.target).1)) ∅ = .ok last := by
  unfold Validation.constraint
  simp only [constraintInstance_eq]
  constructor
  · intro h
    obtain ⟨last, hlast, _⟩ := bind_eq_ok.mp h
    exact ⟨last, hlast⟩
  · rintro ⟨last, hlast⟩
    exact bind_eq_ok.mpr ⟨last, hlast, rfl⟩

/-- **A snapshot passes** where each definition and constraint does. -/
theorem validateSchema_ok {schema : SchemaState} : v.validateSchema schema = .ok () ↔
    (∀ (label : Text) definition, schema.graphNodes[label]? = some definition →
      v.graphNode definition = .ok ()) ∧
    (∀ (type : Text) definition, schema.graphRelationships[type]? = some definition →
      v.graphRelationship definition = .ok ()) ∧
    (∀ (name : Text) constraint, schema.constraints[name]? = some constraint →
      v.constraint constraint = .ok ()) := by
  have hentries : ∀ {α : Type} {m : ExtTreeMap Text α} {p : α → Prop},
      (∀ e ∈ m.toList, p e.2) ↔ ∀ (name : Text) a, m[name]? = some a → p a := by
    intro α m p
    exact forall_mem_toList (p := fun e => p e.2)
  unfold validateSchema validateSchemaTransition
  rw [check_bind_eq_ok, check_bind_eq_ok, forM_eq_ok, forM_eq_ok, forM_eq_ok, ← hentries,
    ← hentries, ← hentries]
  simp [changed]

/-! ## 5. What passed before -/

variable {v' : Validation}

/-- An owner has the properties it had. -/
def SameProperties (v v' : Validation) (kind : OwnerKind) (id : Int) : Prop :=
  ∀ property, v'.withProperty kind id property = v.withProperty kind id property

/-- A node has the labels it had, as far as they have names. -/
def SameLabels (v v' : Validation) (node : NodeId) : Prop :=
  ∀ label, v'.hasLabel node (v'.connection.labels.find label) =
    v.hasLabel node (v.connection.labels.find label)

theorem properties_congr {kind : OwnerKind} (h : SameProperties v v' kind id) (owner : Text)
    (rules : ExtTreeMap Text PropertyRule) :
    v'.properties owner kind id rules = v.properties owner kind id rules := by
  unfold Validation.properties
  simp only [h _]

theorem graphNodeInstance_congr (hlabels : SameLabels v v' node)
    (hproperties : SameProperties v v' .node node) (definition : GraphNodeType) :
    v'.graphNodeInstance definition node = v.graphNodeInstance definition node := by
  unfold graphNodeInstance
  simp only [hlabels _, properties_congr hproperties]

theorem endpoint_congr {expected : Option Text}
    (h : ∀ label, expected = some label →
      v'.hasLabel node (v'.connection.labels.find label) =
        v.hasLabel node (v.connection.labels.find label))
    (definition : GraphRelationshipType) (name : String) :
    v'.endpoint definition node expected name = v.endpoint definition node expected name := by
  unfold endpoint
  cases expected with
  | none => rfl
  | some label => simp only [h label rfl]

theorem instanceKey_congr {kind : OwnerKind} (h : SameProperties v v' kind id)
    (constraint : ConstraintDefinition) :
    v'.instanceKey constraint kind id = v.instanceKey constraint kind id := by
  have hfrom : ∀ (properties : List Text) (key : Bytes),
      v'.uniquenessFrom constraint kind id properties key =
        v.uniquenessFrom constraint kind id properties key := by
    intro properties
    induction properties with
    | nil => exact fun key => rfl
    | cons property rest ih =>
      intro key
      unfold uniquenessFrom uniquenessPart
      simp only [h property, ih]
  unfold instanceKey uniqueness
  simp only [hfrom, h _]

/-- **A definition of nodes passes where it passed**, if its nodes were there before unchanged. -/
theorem graphNode_kept {definition : GraphNodeType} (hname : v'.connection = v.connection)
    (hnodes : ∀ label, v.connection.labels.find definition.label = some label →
      ∀ node ∈ v'.nodes label,
        node ∈ v.nodes label ∧ SameLabels v v' node ∧ SameProperties v v' .node node)
    (h : v.graphNode definition = .ok ()) : v'.graphNode definition = .ok () := by
  refine graphNode_ok.mpr fun label hlabel node hnode => ?_
  rw [hname] at hlabel
  obtain ⟨hold, hlabels, hproperties⟩ := hnodes label hlabel node hnode
  rw [graphNodeInstance_congr hlabels hproperties]
  exact graphNode_ok.mp h label hlabel node hold

/-- **So does one of relationships**, if their ends have the labels they had. -/
theorem graphRelationship_kept {definition : GraphRelationshipType}
    (hname : v'.connection = v.connection)
    (hrelationships : ∀ type,
      v.connection.relationshipTypes.find definition.relationshipType = some type →
        ∀ record ∈ v'.relationships type,
          record ∈ v.relationships type ∧ SameProperties v v' .relationship record.id)
    (hends : ∀ node label,
      definition.sourceLabel = some label ∨ definition.targetLabel = some label →
        v'.hasLabel node (v'.connection.labels.find label) =
          v.hasLabel node (v.connection.labels.find label))
    (h : v.graphRelationship definition = .ok ()) : v'.graphRelationship definition = .ok () := by
  refine graphRelationship_ok.mpr fun type htype record hrecord => ?_
  rw [hname] at htype
  obtain ⟨hold, hproperties⟩ := hrelationships type htype record hrecord
  have hsame : v'.graphRelationshipInstance definition record =
      v.graphRelationshipInstance definition record := by
    unfold graphRelationshipInstance
    rw [endpoint_congr (fun label hlabel => hends _ label (Or.inl hlabel)),
      endpoint_congr (fun label hlabel => hends _ label (Or.inr hlabel)),
      properties_congr hproperties]
  rw [hsame]
  exact graphRelationship_ok.mp h type htype record hold

/-- **And a constraint**, if its owners kept their properties. -/
theorem constraint_kept {constraint : ConstraintDefinition} (hs : v'.snapshot.Sound)
    (howners : ∀ id ∈ (v'.owners constraint.target).2, id ∈ (v.owners constraint.target).2 ∧
      SameProperties v v' (v.owners constraint.target).1 id)
    (h : v.constraint constraint = .ok ()) : v'.constraint constraint = .ok () := by
  have hkind : (v'.owners constraint.target).1 = (v.owners constraint.target).1 := by
    unfold owners
    cases constraint.target <;> rfl
  refine constraint_ok.mpr ?_
  rw [hkind]
  exact scanDistinct_sub (owners_nodup hs constraint.target) (fun id hid => (howners id hid).1)
    (fun id hid => instanceKey_congr (howners id hid).2 constraint) (constraint_ok.mp h)

end Looks

end Validation

end Query

end Lithograph
