/-
  File:      Lithograph/Query/Schema/Affected.lean
  Subject:   The check of a layer against the schema of its commit, by the definitions it has an
             impact on (`query/schema/validate/controlled/affected.rs`).

  * `validateLayer_iff`: over a snapshot that passed, the impacted definitions pass exactly where
    all of them do.
-/
import Lithograph.Query.Schema.Validate
import Lithograph.Storage.HistoryRuns

namespace Lithograph.Query

open Std Library Storage

/-! ## 1. The impact of a layer -/

/-- `LayerImpact`; of its sets only the members count. -/
structure LayerImpact where
  nodeLabels : List LabelId
  relationshipTypes : List RelationshipTypeId
  changedLabels : List LabelId

namespace LayerImpact

/-- `collect_property_owners`, for one kind of owner. -/
def propertyOwners (layer : LayerBuilder) (kind : OwnerKind) : List Int :=
  (layer.properties.keys.filter fun slot => slot.1 = kind).map fun slot => slot.2.1

/-- The nodes of `collect_node_changes` and of the properties. -/
def nodes (layer : LayerBuilder) : List NodeId :=
  layer.nodes.keys ++ layer.labels.keys.map Prod.fst ++ propertyOwners layer .node

/-- The relationships of `collect_relationship_changes` and of the properties. -/
def relationships (layer : LayerBuilder) : List RelationshipId :=
  (layer.relationships.toList.map fun e => e.2.record.id) ++ propertyOwners layer .relationship

/-- The types that `collect_relationship_changes` counts. -/
def addedTypes (layer : LayerBuilder) : List RelationshipTypeId :=
  (layer.relationships.toList.filter fun e => e.2.op = .add).map fun e => e.2.record.typeId

def resolveNodes (snapshot : Snapshot) (nodes : List NodeId) : List LabelId :=
  (nodes.filter snapshot.nodeExists).flatMap snapshot.visitNodeLabels

def resolveRelationships (snapshot : Snapshot) (relationships : List RelationshipId) :
    List RelationshipTypeId :=
  (relationships.filterMap snapshot.relationship).map fun record => record.typeId

/-- `LayerImpact::resolve`, on the snapshot after the layer. -/
def resolve (snapshot : Snapshot) (layer : LayerBuilder) : LayerImpact where
  nodeLabels := resolveNodes snapshot (nodes layer)
  relationshipTypes := addedTypes layer ++ resolveRelationships snapshot (relationships layer)
  changedLabels := layer.labels.keys.map Prod.snd

end LayerImpact

/-! ## 2. The check -/

namespace Validation

variable (v : Validation)

def impactedNodes (schema : SchemaState) (impact : LayerImpact) : QueryResult Unit :=
  schema.graphNodes.toList.forM fun e =>
    if (v.connection.labels.find e.2.label).any impact.nodeLabels.contains then v.graphNode e.2
    else .ok ()

def changedEndpointLabel (label : Option Text) (impact : LayerImpact) : Bool :=
  match label with
  | none => false
  | some label => (v.connection.labels.find label).any impact.changedLabels.contains

def impactedRelationships (schema : SchemaState) (impact : LayerImpact) : QueryResult Unit :=
  schema.graphRelationships.toList.forM fun e =>
    match v.connection.relationshipTypes.find e.2.relationshipType with
    | none => .ok ()
    | some type =>
      let sourceChanged := v.changedEndpointLabel e.2.sourceLabel impact
      let targetChanged := v.changedEndpointLabel e.2.targetLabel impact
      if impact.relationshipTypes.contains type || sourceChanged || targetChanged then
        v.graphRelationship e.2
      else .ok ()

/-- The target of a constraint is one the layer has an impact on. -/
def affected (target : SchemaTarget) (impact : LayerImpact) : Bool :=
  match target with
  | .node label => (v.connection.labels.find label).any impact.nodeLabels.contains
  | .relationship type =>
    (v.connection.relationshipTypes.find type).any impact.relationshipTypes.contains

def impactedConstraints (schema : SchemaState) (impact : LayerImpact) : QueryResult Unit :=
  schema.constraints.toList.forM fun e =>
    if v.affected e.2.target impact then v.constraint e.2 else .ok ()

/-- `validate_layer_against_commit_schema_controlled`, on the snapshot after the layer. -/
def validateLayerAgainstCommitSchema (schema : SchemaState) (layer : LayerBuilder) :
    QueryResult Unit :=
  if layer.isEmpty then .ok ()
  else if schema.graphNodes.isEmpty && schema.graphRelationships.isEmpty &&
      schema.constraints.isEmpty then .ok ()
  else do
    let impact := LayerImpact.resolve v.snapshot.snapshot layer
    v.impactedNodes schema impact
    v.impactedRelationships schema impact
    v.impactedConstraints schema impact

end Validation

variable {id : RelationshipId} {tuples : RelationshipTuples}

/-! ## 3. What the layer does not name stays as it was -/

section Untouched

variable {s : IndexedSnapshot} {l : LayerBuilder}

namespace LayerImpact

theorem untouched_node {id : NodeId} : id ∉ nodes l →
    l.nodes[id]? = none ∧ (∀ label : LabelId, l.labels[(id, label)]? = none) ∧
      ∀ key : PropertyKeyId, l.properties[(OwnerKind.node, id, key)]? = none := by
  intro h
  simp only [nodes, propertyOwners, List.mem_append, List.mem_map, List.mem_filter,
    ExtTreeMap.mem_keys, ExtTreeMap.mem_iff_isSome_getElem?, not_or, not_exists] at h
  obtain ⟨⟨hnode, hlabel⟩, hproperty⟩ := h
  refine ⟨by simpa using hnode, fun label => ?_, fun key => ?_⟩
  · simpa using hlabel (id, label)
  · simpa using hproperty (OwnerKind.node, id, key)

theorem untouched_relationship (hl : l.Formed) : id ∉ relationships l →
    l.relationships[id]? = none ∧
      ∀ key : PropertyKeyId, l.properties[(OwnerKind.relationship, id, key)]? = none := by
  intro h
  simp only [relationships, propertyOwners, List.mem_append, List.mem_map, List.mem_filter,
    ExtTreeMap.mem_keys, ExtTreeMap.mem_iff_isSome_getElem?, not_or, not_exists] at h
  obtain ⟨hrelationship, hproperty⟩ := h
  refine ⟨?_, fun key => by simpa using hproperty (OwnerKind.relationship, id, key)⟩
  cases hd : l.relationships[id]? with
  | none => rfl
  | some delta =>
    exact absurd ⟨mem_of_lookup hd, hl.keyed id delta hd⟩ (hrelationship (id, delta))

/-- **A node the layer names counts by every label it has.** -/
theorem impacted_node {snapshot : Snapshot} (hs : snapshot.Formed)
    (hg : snapshot.graph.Consistent) {id : NodeId} {label : LabelId}
    (hlabel : snapshot.graph.labels[(id, label)]?.isSome) (h : id ∈ nodes l) :
    label ∈ (resolve snapshot l).nodeLabels := by
  refine List.mem_flatMap.mpr ⟨id, List.mem_filter.mpr ⟨h, ?_⟩, ?_⟩
  · rw [Snapshot.nodeExists_eq]
    exact hg.labels (id, label) hlabel
  · rw [← List.contains_iff_mem, Snapshot.contains_visitNodeLabels hs (id, label)]
    exact hlabel

/-- **A relationship the layer names counts by its type.** -/
theorem impacted_relationship {snapshot : Snapshot} {record : RelationshipRecord}
    (hrecord : snapshot.graph.relationships[id]? = some record) (h : id ∈ relationships l) :
    record.typeId ∈ (resolve snapshot l).relationshipTypes := by
  refine List.mem_append_right _
    (List.mem_map.mpr ⟨record, List.mem_filterMap.mpr ⟨id, h, ?_⟩, rfl⟩)
  rw [Snapshot.relationship_eq]
  exact hrecord

end LayerImpact

namespace Validation

variable {ids : Identities}

theorem sameProperties_applyLayer (hs : s.Sound) (hl : l.Formed) {kind : OwnerKind} {id : Int}
    (h : ∀ key : PropertyKeyId, l.properties[(kind, id, key)]? = none) :
    SameProperties ⟨ids, s⟩ ⟨ids, s.applyLayer l⟩ kind id := by
  intro property
  unfold withProperty
  cases ids.propertyKeys.find property with
  | none => rfl
  | some key =>
    simp only
    rw [IndexedSnapshot.snapshot_applyLayer hs hl, Snapshot.property_applyLayer, h key]

theorem hasLabel_applyLayer (hs : s.Sound) (hl : l.Formed) (hs' : (s.applyLayer l).Sound)
    {node : NodeId} {label : LabelId} (h : l.labels[(node, label)]? = none) :
    (Validation.mk ids (s.applyLayer l)).hasLabel node (some label) =
      (Validation.mk ids s).hasLabel node (some label) := by
  unfold hasLabel
  simp only
  rw [Snapshot.contains_visitNodeLabels hs'.formed (node, label),
    Snapshot.contains_visitNodeLabels hs.formed (node, label),
    IndexedSnapshot.snapshot_applyLayer hs hl, Snapshot.graph_applyLayer, GraphState.labels_apply,
    h]
  rfl

theorem sameLabels_applyLayer (hs : s.Sound) (hl : l.Formed) (hs' : (s.applyLayer l).Sound)
    {node : NodeId} (h : ∀ label : LabelId, l.labels[(node, label)]? = none) :
    SameLabels ⟨ids, s⟩ ⟨ids, s.applyLayer l⟩ node := by
  intro name
  cases ids.labels.find name with
  | none => rfl
  | some label => exact hasLabel_applyLayer hs hl hs' (h label)

theorem graphNode_unimpacted (hs : s.Valid tuples) (hl : l.Formed)
    (haccepted : s.validateLayer l ids tuples = .ok ()) {definition : GraphNodeType}
    (h : ∀ label, ids.labels.find definition.label = some label →
      label ∉ (LayerImpact.resolve (s.applyLayer l).snapshot l).nodeLabels)
    (hbefore : (Validation.mk ids s).graphNode definition = .ok ()) :
    (Validation.mk ids (s.applyLayer l)).graphNode definition = .ok () := by
  have hs' := IndexedSnapshot.valid_applyLayer hs hl haccepted
  refine graphNode_kept (v := ⟨ids, s⟩) rfl (fun label hlabel node hnode => ?_) hbefore
  have hnode : (s.applyLayer l).snapshot.graph.labels[(node, label)]?.isSome :=
    (mem_nodes (v := ⟨ids, s.applyLayer l⟩) hs'.sound).mp hnode
  have hout : node ∉ LayerImpact.nodes l := fun hin =>
    h label hlabel (LayerImpact.impacted_node hs'.sound.formed hs'.consistent hnode hin)
  obtain ⟨_, hlabels, hproperties⟩ := LayerImpact.untouched_node hout
  refine ⟨(mem_nodes hs.sound).mpr ?_, sameLabels_applyLayer hs.sound hl hs'.sound hlabels,
    sameProperties_applyLayer hs.sound hl hproperties⟩
  rw [IndexedSnapshot.snapshot_applyLayer hs.sound hl, Snapshot.graph_applyLayer,
    GraphState.labels_apply, hlabels label] at hnode
  exact hnode

theorem relationship_unimpacted (hs : s.Sound) (hl : l.Formed) {record : RelationshipRecord}
    (hrecord : (s.applyLayer l).snapshot.graph.relationships[id]? = some record)
    (h : record.typeId ∉ (LayerImpact.resolve (s.applyLayer l).snapshot l).relationshipTypes) :
    s.snapshot.graph.relationships[id]? = some record ∧
      SameProperties ⟨ids, s⟩ ⟨ids, s.applyLayer l⟩ .relationship id := by
  have hout : id ∉ LayerImpact.relationships l := fun hin =>
    h (LayerImpact.impacted_relationship hrecord hin)
  obtain ⟨hrelationship, hproperties⟩ := LayerImpact.untouched_relationship hl hout
  refine ⟨?_, sameProperties_applyLayer hs hl hproperties⟩
  rw [IndexedSnapshot.snapshot_applyLayer hs hl, Snapshot.graph_applyLayer,
    GraphState.relationships_apply, hrelationship] at hrecord
  exact hrecord

theorem graphRelationship_unimpacted (hs : s.Valid tuples) (hl : l.Formed)
    (haccepted : s.validateLayer l ids tuples = .ok ()) {definition : GraphRelationshipType}
    (htypes : ∀ type, ids.relationshipTypes.find definition.relationshipType = some type →
      type ∉ (LayerImpact.resolve (s.applyLayer l).snapshot l).relationshipTypes)
    (hlabels : ∀ name label,
      definition.sourceLabel = some name ∨ definition.targetLabel = some name →
        ids.labels.find name = some label →
          label ∉ (LayerImpact.resolve (s.applyLayer l).snapshot l).changedLabels)
    (hbefore : (Validation.mk ids s).graphRelationship definition = .ok ()) :
    (Validation.mk ids (s.applyLayer l)).graphRelationship definition = .ok () := by
  have hs' := IndexedSnapshot.valid_applyLayer hs hl haccepted
  refine graphRelationship_kept (v := ⟨ids, s⟩) rfl (fun type htype record hrecord => ?_)
    (fun node name hname => ?_) hbefore
  · obtain ⟨hshown, rfl⟩ := (mem_relationships hs'.sound).mp hrecord
    obtain ⟨hold, hsame⟩ := relationship_unimpacted hs.sound hl hshown (htypes _ htype)
    exact ⟨(mem_relationships hs.sound).mpr ⟨hold, rfl⟩, hsame⟩
  · cases hlabel : ids.labels.find name with
    | none => rfl
    | some label =>
      refine hasLabel_applyLayer hs.sound hl hs'.sound ?_
      cases hop : l.labels[(node, label)]? with
      | none => rfl
      | some op =>
        refine absurd (List.mem_map.mpr ⟨(node, label), ?_, rfl⟩) (hlabels name label hname hlabel)
        rw [ExtTreeMap.mem_keys, ExtTreeMap.mem_iff_isSome_getElem?, hop]
        rfl

theorem constraint_unimpacted (hs : s.Valid tuples) (hl : l.Formed)
    (haccepted : s.validateLayer l ids tuples = .ok ()) {constraint : ConstraintDefinition}
    (h : (Validation.mk ids (s.applyLayer l)).affected constraint.target
      (LayerImpact.resolve (s.applyLayer l).snapshot l) = false)
    (hbefore : (Validation.mk ids s).constraint constraint = .ok ()) :
    (Validation.mk ids (s.applyLayer l)).constraint constraint = .ok () := by
  have hs' := IndexedSnapshot.valid_applyLayer hs hl haccepted
  refine constraint_kept (v := ⟨ids, s⟩) hs'.sound (fun id hid => ?_) hbefore
  unfold affected at h
  cases htarget : constraint.target with
  | node name =>
    rw [htarget] at h hid
    obtain ⟨label, hlabel, hnode⟩ := (mem_owners_node hs'.sound).mp hid
    simp only at hlabel h hnode
    rw [hlabel, Option.any_some, List.contains_eq_mem, decide_eq_false_iff_not] at h
    have hout : id ∉ LayerImpact.nodes l := fun hin =>
      h (LayerImpact.impacted_node hs'.sound.formed hs'.consistent hnode hin)
    obtain ⟨_, hlabels, hproperties⟩ := LayerImpact.untouched_node hout
    rw [IndexedSnapshot.snapshot_applyLayer hs.sound hl, Snapshot.graph_applyLayer,
      GraphState.labels_apply, hlabels label] at hnode
    exact ⟨(mem_owners_node hs.sound).mpr ⟨label, hlabel, hnode⟩,
      sameProperties_applyLayer hs.sound hl hproperties⟩
  | relationship name =>
    rw [htarget] at h hid
    obtain ⟨type, record, htype, hrecord, rfl⟩ := (mem_owners_relationship hs'.sound).mp hid
    simp only at htype h hrecord
    rw [htype, Option.any_some, List.contains_eq_mem, decide_eq_false_iff_not] at h
    obtain ⟨hold, hsame⟩ := relationship_unimpacted hs.sound hl hrecord h
    exact ⟨(mem_owners_relationship hs.sound).mpr ⟨record.typeId, record, htype, hold, rfl⟩, hsame⟩

/-- **What the incremental check sees to.** -/
theorem impacted_ok (v : Validation) {schema : SchemaState} {impact : LayerImpact} :
    (do
      v.impactedNodes schema impact
      v.impactedRelationships schema impact
      v.impactedConstraints schema impact) = .ok () ↔
    (∀ (name : Text) definition, schema.graphNodes[name]? = some definition →
      (v.connection.labels.find definition.label).any impact.nodeLabels.contains = true →
        v.graphNode definition = .ok ()) ∧
    (∀ (name : Text) definition, schema.graphRelationships[name]? = some definition →
      ∀ type, v.connection.relationshipTypes.find definition.relationshipType = some type →
        (impact.relationshipTypes.contains type ||
          v.changedEndpointLabel definition.sourceLabel impact ||
          v.changedEndpointLabel definition.targetLabel impact) = true →
            v.graphRelationship definition = .ok ()) ∧
    (∀ (name : Text) constraint, schema.constraints[name]? = some constraint →
      v.affected constraint.target impact = true → v.constraint constraint = .ok ()) := by
  have hwhen : ∀ {c : Bool} {check : QueryResult Unit},
      (if c then check else .ok ()) = .ok () ↔ (c = true → check = .ok ()) := by
    intro c check
    cases c <;> simp
  unfold impactedNodes impactedRelationships impactedConstraints
  rw [check_bind_eq_ok, check_bind_eq_ok, forM_eq_ok, forM_eq_ok, forM_eq_ok, forall_mem_toList,
    forall_mem_toList, forall_mem_toList]
  simp only [hwhen]
  refine and_congr_right fun _ => and_congr_left fun _ => ?_
  refine forall_congr' fun name => forall_congr' fun definition => forall_congr' fun _ => ?_
  cases v.connection.relationshipTypes.find definition.relationshipType with
  | none => simp
  | some type =>
    simp only [Option.some.injEq, forall_eq']
    exact hwhen

theorem impacted_empty (v : Validation) (schema : SchemaState) : (do
    v.impactedNodes schema (LayerImpact.resolve v.snapshot.snapshot {})
    v.impactedRelationships schema (LayerImpact.resolve v.snapshot.snapshot {})
    v.impactedConstraints schema (LayerImpact.resolve v.snapshot.snapshot {})) = .ok () := by
  have hnothing : LayerImpact.resolve v.snapshot.snapshot {} = ⟨[], [], []⟩ := rfl
  have hany : ∀ found : Option Int, found.any ([] : List Int).contains = false := by
    intro found
    cases found <;> rfl
  have hend : ∀ label : Option Text, v.changedEndpointLabel label ⟨[], [], []⟩ = false := by
    intro label
    cases label with
    | none => rfl
    | some label => exact hany _
  rw [hnothing, impacted_ok]
  refine ⟨fun _ _ _ h => ?_, fun _ _ _ _ _ h => ?_, fun _ constraint _ h => ?_⟩
  · rw [hany] at h
    cases h
  · rw [hend, hend] at h
    cases h
  · unfold affected at h
    split at h
    · rw [hany] at h
      cases h
    · rw [hany] at h
      cases h

/-- **The incremental check is the full one.** Over a valid snapshot that passes the check of a
    schema, a layer that is accepted passes the incremental check exactly where the snapshot after
    it passes the check of every definition and every constraint. -/
theorem validateLayer_iff {tuples : RelationshipTuples} (hs : s.Valid tuples) (hl : l.Formed)
    (haccepted : s.validateLayer l ids tuples = .ok ()) {schema : SchemaState}
    (hbefore : (Validation.mk ids s).validateSchema schema = .ok ()) :
    (Validation.mk ids (s.applyLayer l)).validateLayerAgainstCommitSchema schema l = .ok () ↔
      (Validation.mk ids (s.applyLayer l)).validateSchema schema = .ok () := by
  obtain ⟨hnodes, hrelationships, hconstraints⟩ := validateSchema_ok.mp hbefore
  -- the definitions with an impact are checked, the others pass as before
  have himpact : (do
      (Validation.mk ids (s.applyLayer l)).impactedNodes schema
        (LayerImpact.resolve (s.applyLayer l).snapshot l)
      (Validation.mk ids (s.applyLayer l)).impactedRelationships schema
        (LayerImpact.resolve (s.applyLayer l).snapshot l)
      (Validation.mk ids (s.applyLayer l)).impactedConstraints schema
        (LayerImpact.resolve (s.applyLayer l).snapshot l)) = .ok () ↔
      (Validation.mk ids (s.applyLayer l)).validateSchema schema = .ok () := by
    rw [impacted_ok, validateSchema_ok]
    constructor
    · rintro ⟨himpactNodes, himpactRelationships, himpactConstraints⟩
      refine ⟨fun name definition hd => ?_, fun name definition hd => ?_,
        fun name constraint hc => ?_⟩
      · by_cases himpact : (ids.labels.find definition.label).any
            (LayerImpact.resolve (s.applyLayer l).snapshot l).nodeLabels.contains = true
        · exact himpactNodes name definition hd himpact
        · refine graphNode_unimpacted hs hl haccepted (fun label hlabel hin => himpact ?_)
            (hnodes name definition hd)
          rw [hlabel, Option.any_some, List.contains_iff_mem]
          exact hin
      · cases htype : ids.relationshipTypes.find definition.relationshipType with
        | none =>
          refine graphRelationship_ok.mpr fun type hfound => ?_
          rw [show (Validation.mk ids (s.applyLayer l)).connection = ids from rfl, htype] at hfound
          cases hfound
        | some type =>
          by_cases himpact : ((LayerImpact.resolve (s.applyLayer l).snapshot
                l).relationshipTypes.contains type ||
              (Validation.mk ids (s.applyLayer l)).changedEndpointLabel definition.sourceLabel
                (LayerImpact.resolve (s.applyLayer l).snapshot l) ||
              (Validation.mk ids (s.applyLayer l)).changedEndpointLabel definition.targetLabel
                (LayerImpact.resolve (s.applyLayer l).snapshot l)) = true
          · exact himpactRelationships name definition hd type htype himpact
          · simp only [Bool.or_eq_true, not_or, List.contains_iff_mem] at himpact
            obtain ⟨⟨hout, hsource⟩, htarget⟩ := himpact
            refine graphRelationship_unimpacted hs hl haccepted (fun type' htype' => ?_)
              (fun name label hname hlabel hin => ?_) (hrelationships name definition hd)
            · rw [htype] at htype'
              cases htype'
              exact hout
            · rcases hname with hname | hname
              · refine hsource ?_
                rw [hname]
                unfold changedEndpointLabel
                simp only [hlabel, Option.any_some, List.contains_iff_mem]
                exact hin
              · refine htarget ?_
                rw [hname]
                unfold changedEndpointLabel
                simp only [hlabel, Option.any_some, List.contains_iff_mem]
                exact hin
      · cases himpact : (Validation.mk ids (s.applyLayer l)).affected constraint.target
            (LayerImpact.resolve (s.applyLayer l).snapshot l) with
        | true => exact himpactConstraints name constraint hc himpact
        | false =>
          exact constraint_unimpacted hs hl haccepted himpact (hconstraints name constraint hc)
    · rintro ⟨hallNodes, hallRelationships, hallConstraints⟩
      exact ⟨fun name definition hd _ => hallNodes name definition hd,
        fun name definition hd _ _ _ => hallRelationships name definition hd,
        fun name constraint hc _ => hallConstraints name constraint hc⟩
  unfold validateLayerAgainstCommitSchema
  split
  · rename_i hempty
    have hnothing := LayerBuilder.isEmpty_iff.mp hempty
    subst hnothing
    exact iff_of_true rfl (himpact.mp (impacted_empty _ schema))
  · split
    · rename_i hempty
      simp only [Bool.and_eq_true, ExtTreeMap.isEmpty_iff] at hempty
      obtain ⟨⟨hn, hr⟩, hc⟩ := hempty
      refine iff_of_true rfl (validateSchema_ok.mpr ⟨fun _ _ h => ?_, fun _ _ h => ?_,
        fun _ _ h => ?_⟩)
      · simp [hn] at h
      · simp [hr] at h
      · simp [hc] at h
    · exact himpact

end Validation

end Untouched

/-! ## 4. A layer that is caught -/

/-- A database with a label and a property key, where node 1 is allocated. -/
def labelled : Identities where
  nextNode := 2
  labels := .single 1 "A".toList
  propertyKeys := .single 1 "p".toList

/-- Each node with the label has the property. -/
def needsProperty : SchemaState where
  constraints := (∅ : ExtTreeMap Text ConstraintDefinition).insert "c".toList
    ⟨"c".toList, .node "A".toList, ["p".toList], .notNull, none⟩

/-- Node 1 with the label, without the property. -/
def newLabelled : LayerBuilder where
  nodes := (∅ : ExtTreeMap NodeId DeltaOp).insert 1 .add
  labels := (∅ : ExtTreeMap (NodeId × LabelId) DeltaOp).insert (1, 1) .add

theorem newLabelled_formed : newLabelled.Formed := by
  have hsupply : LayerBuilder.supply [.addNode 1, .addLabel 1 1] = .ok newLabelled := rfl
  refine (built_supply (fun c hc => ?_) (by decide) hsupply).formed
  rcases List.mem_cons.mp hc with rfl | hc
  · exact (by decide : (1 : Int) < 2 ^ 63)
  · cases List.mem_singleton.mp hc
    exact ⟨by decide, by decide⟩

theorem valid_blank : (IndexedSnapshot.mk none {}).Valid [] := by
  refine ⟨⟨⟨?_, ?_, ?_, ?_, ?_⟩, IndexedOverlay.indexed_empty, ?_⟩, ?_, ?_, ?_⟩
  · intro row op h
    simp [IndexedSnapshot.snapshot] at h
  · intro id delta h
    simp [IndexedSnapshot.snapshot] at h
  · intro slot delta h
    simp [IndexedSnapshot.snapshot] at h
  · intro slot delta h
    simp [IndexedSnapshot.snapshot] at h
  · intro id record h
    simp [IndexedSnapshot.snapshot, Snapshot.base] at h
  · intro id record delta h
    simp [IndexedSnapshot.base] at h
  · intro id record h
    simp [IndexedSnapshot.base] at h
  · intro id delta h
    simp at h
  · exact Database.consistent_empty

/-- The incremental check catches it, because the full one would. -/
theorem validateLayer_iff_newLabelled :
    (Validation.mk labelled ((IndexedSnapshot.mk none {}).applyLayer
      newLabelled)).validateLayerAgainstCommitSchema needsProperty newLabelled ≠ .ok () := by
  have hfull : (Validation.mk labelled ((IndexedSnapshot.mk none {}).applyLayer
      newLabelled)).validateSchema needsProperty ≠ .ok () := by
    intro h
    have hcaught : ∃ error, (Validation.mk labelled ((IndexedSnapshot.mk none {}).applyLayer
        newLabelled)).validateSchema needsProperty = .error error := ⟨_, rfl⟩
    cases h
  intro h
  exact hfull ((Validation.validateLayer_iff valid_blank newLabelled_formed rfl rfl).mp h)

end Lithograph.Query
