/-
  File:      Lithograph/Query/Schema/Generation.lean
  Subject:   Index generations that are kept with a commit, and how a later snapshot uses one
             (`query/schema/index/persistent.rs`, `query/schema/index/persistent/controlled.rs`).

  A snapshot further down the first-parent lineage hides the owners that may have changed and has
  their rows in a table of its own. Left out: leases, cancellation and the reuse of a binding.
-/
import Lithograph.Query.Schema.IndexEntries
import Lithograph.Storage.SparseLayer

namespace Lithograph

open Std Library

namespace Storage

/-! ## 1. Definitions by their JSON -/

mutual

/-- Two trees are the same. -/
def sameJson : Json → Json → Bool
  | .null, .null => true
  | .bool a, .bool b => a == b
  | .int a, .int b => a == b
  | .float a, .float b => a == b
  | .string a, .string b => a == b
  | .array as, .array bs => sameItems as bs
  | .object as, .object bs => sameFields as bs
  | _, _ => false

def sameItems : List Json → List Json → Bool
  | [], [] => true
  | a :: as, b :: bs => sameJson a b && sameItems as bs
  | _, _ => false

def sameFields : List (Text × Json) → List (Text × Json) → Bool
  | [], [] => true
  | (k, a) :: as, (l, b) :: bs => k == l && sameJson a b && sameFields as bs
  | _, _ => false

end

mutual

theorem eq_of_sameJson : ∀ {a b : Json}, sameJson a b = true → a = b
  | a, b, h => by
    cases a <;> cases b <;> simp only [sameJson, beq_iff_eq, Bool.false_eq_true] at h
    · rfl
    · rw [h]
    · rw [h]
    · rw [h]
    · rw [h]
    · rw [eq_of_sameItems h]
    · rw [eq_of_sameFields h]

theorem eq_of_sameItems : ∀ {as bs : List Json}, sameItems as bs = true → as = bs
  | [], [], _ => rfl
  | a :: as, b :: bs, h => by
    simp only [sameItems, Bool.and_eq_true] at h
    rw [eq_of_sameJson h.1, eq_of_sameItems h.2]

theorem eq_of_sameFields : ∀ {as bs : List (Text × Json)}, sameFields as bs = true → as = bs
  | [], [], _ => rfl
  | (k, a) :: as, (l, b) :: bs, h => by
    simp only [sameFields, Bool.and_eq_true, beq_iff_eq] at h
    rw [h.1.1, eq_of_sameJson h.1.2, eq_of_sameFields h.2]

end

theorem json_inj {a b : IndexDefinition} (h : a.json = b.json) : a = b := by
  have hread : Serial.fromJson (Serial.toJson a) = some b := by
    rw [← Serial.fromJson_toJson b]
    exact congrArg Serial.fromJson h
  rw [Serial.fromJson_toJson a] at hread
  exact Option.some.inj hread

end Storage

variable {env : ValueEnv} {owner : IndexOwner} {g : GraphState}

namespace Query

open Storage

/-! ## 2. Generations -/

/-- A row of `_lithograph_index_generations`, with its index entries. -/
structure Generation (H : Type) where
  anchor : H
  definitionHash : H
  definition : Json
  complete : Bool
  entries : IndexRows

/-- A database file with its index generations. -/
structure IndexStore (H : Type) [Ord H] where
  db : Database H
  generations : List (Generation H) := []

/-- What the index code takes from elsewhere: the hash of a definition, and how values are read. -/
structure IndexExternals (H : Type) extends Externals H where
  definitionHash : Json → H
  env : ValueEnv

/-- `GENERATION_COPY_PAGE_SIZE`. -/
def copyPageSize : Nat := 4096

/-- `copy_local_generation_pages`: the rows that are read page by page, as the columns of the other
    table hold them. -/
def copyLocalGenerationPages (rows : IndexRows) : IndexRows :=
  (scanAll (pageOf copyPageSize rows.toList) (rows.toList.length + 1) none).foldl
    (fun copied e => copied.insert e.1 e.2.stored) ∅

namespace IndexStore

variable {H : Type} [Ord H] [TransOrd H] [LawfulEqOrd H] [DecidableEq H] (x : IndexExternals H)
  (st : IndexStore H)

/-- `publish_persistent`: the generation takes the place of one of the same definition. -/
def publishPersistent (commit : H) (index : IndexDefinition) (rows : IndexRows) : IndexStore H :=
  let definitionHash := x.definitionHash index.json
  let others := st.generations.filter fun g =>
    !(g.anchor == commit && g.definitionHash == definitionHash)
  { st with generations := others ++ [{
      anchor := commit
      definitionHash
      definition := index.json
      complete := true
      entries := copyLocalGenerationPages rows }] }

/-- `build_persistent_generation`, on the snapshot of a commit. -/
def buildPersistentGeneration (commit : H) (index : IndexDefinition) :
    QueryResult (IndexStore H) := do
  let state ← ofStorage (st.db.resolveState x.toExternals commit none)
  let rows ← QuerySnapshot.rebuildLocal x.env ⟨st.db.ids, commit, state, none⟩ index
  pure (st.publishPersistent x commit index rows)

/-- `load_generation_candidates`: the complete generations of a definition hash, by anchor. -/
def loadGenerationCandidates (definitionHash : H) : ExtTreeMap H (Generation H) :=
  (st.generations.filter fun g => g.definitionHash == definitionHash && g.complete).foldl
    (fun candidates g => candidates.insert g.anchor g) ∅

def validGenerationCandidate (definition : Json) (candidate : Option (Generation H)) :
    Option (Generation H) :=
  candidate.bind fun g => if sameJson g.definition definition then some g else none

/-- The loop of `compatible_persistent_generation`, which has no end on a cycle. -/
def compatibleFrom (definition : Json) (candidates : ExtTreeMap H (Generation H)) :
    Nat → H → QueryResult (Option (Generation H))
  | 0, _ => .error (.internal "Commit first-parent lineage contains a cycle")
  | fuel + 1, current =>
    match validGenerationCandidate definition candidates[current]? with
    | some g => .ok (some g)
    | none =>
      match st.db.commits[current]? with
      | none => .error ⟨.storage, "Query returned no rows"⟩
      | some row =>
        match row.parent1 with
        | none => .ok none
        | some parent => compatibleFrom definition candidates fuel parent

def compatiblePersistentGeneration (commit : H) (index : IndexDefinition) :
    QueryResult (Option (Generation H)) :=
  st.compatibleFrom index.json (st.loadGenerationCandidates (x.definitionHash index.json))
    (st.db.commits.size + 1) commit

end IndexStore

/-! ## 3. Changed owners -/

/-- The owners `changed_lookup_relationships` inserts. -/
def changedLookupRelationships (delta : LayerBuilder) : List IndexOwner :=
  delta.relationships.toList.map fun e => (.relationship, e.2.record.id)

/-- The owners `changed_nodes` inserts. -/
def changedNodes (delta : LayerBuilder) (token : Option LabelId) : List IndexOwner :=
  (delta.nodes.keys.map fun node => (.node, node)) ++
    (delta.labels.keys.filter fun row => token == some row.2).map fun row => (.node, row.1)

/-- The owners `changed_relationships` inserts. -/
def changedRelationships (delta : LayerBuilder) (token : Option RelationshipTypeId) :
    List IndexOwner :=
  (delta.relationships.toList.filter fun e => token == some e.2.record.typeId).map
    fun e => (.relationship, e.2.record.id)

/-- The owners `changed_properties` inserts. -/
def changedProperties (delta : LayerBuilder) (kind : OwnerKind) (keys : List PropertyKeyId) :
    List IndexOwner :=
  (delta.properties.keys.filter fun slot => slot.1 == kind && keys.contains slot.2.2).map
    fun slot => (slot.1, slot.2.1)

/-- The owners `relevant_changed_owners` inserts. -/
def relevantChangedOwners (connection : Identities) (index : IndexDefinition)
    (delta : LayerBuilder) : List IndexOwner :=
  match index.target with
  | .nodeLookup => []
  | .relationshipLookup => changedLookupRelationships delta
  | .nodeProperties label properties =>
    changedNodes delta (connection.labels.find label) ++
      changedProperties delta .node ((propertyKeyIds connection properties).getD [])
  | .relationshipProperties relationshipType properties =>
    changedRelationships delta (connection.relationshipTypes.find relationshipType) ++
      changedProperties delta .relationship ((propertyKeyIds connection properties).getD [])

abbrev ChangedOwners := ExtTreeMap IndexOwner Unit

/-- Owners are inserted one after the other. -/
def insertChanged (changed : ChangedOwners) (owners : List IndexOwner) : ChangedOwners :=
  owners.foldl (fun changed owner => changed.insert owner ()) changed

/-! ## 4. Bindings -/

/-- What a snapshot reads an index from: the rows of a generation, the owners hidden in it, and
    rows of its own. -/
structure Binding where
  generation : IndexRows
  changed : ChangedOwners
  localRows : IndexRows

/-- `_lithograph_standard_index_cache`, the view over both. -/
def Binding.view (b : Binding) : List ((IndexOwner × Nat) × IndexEntry) :=
  b.localRows.toList ++ visibleRows b.changed.contains b.generation

namespace QuerySnapshot

variable {H : Type} (env : ValueEnv) (s : QuerySnapshot H) (index : IndexDefinition)
  (changed : ChangedOwners)

def materializeRelationshipLookupValues : QueryResult IndexRows :=
  changed.keys.foldlM (fun table owner =>
    if owner.1 ≠ .relationship then .ok table
    else match s.state.snapshot.relationship owner.2 with
      | none => .ok table
      | some record =>
        .ok (table.insert ((.relationship, record.id), 0) (lookupEntry record.typeId))) ∅

def materializeNodePropertyValues (label : Text) (properties : List Text) : QueryResult IndexRows :=
  match s.connection.labels.find label with
  | none => .ok ∅
  | some label =>
    match propertyKeyIds s.connection properties with
    | none => .ok ∅
    | some keys =>
      changed.keys.foldlM (fun table owner =>
        if owner.1 ≠ .node || !s.state.snapshot.nodeExists owner.2 ||
            !(s.state.snapshot.visitNodeLabels owner.2).contains label then .ok table
        else insertOwner env index.kind s.state.snapshot.property (.node, owner.2) keys table) ∅

def materializeRelationshipPropertyValues (relationshipType : Text) (properties : List Text) :
    QueryResult IndexRows :=
  match relationshipPropertyDomain s.connection relationshipType properties with
  | none => .ok ∅
  | some (type, keys) =>
    changed.keys.foldlM (fun table owner =>
      if owner.1 ≠ .relationship then .ok table
      else match s.state.snapshot.relationship owner.2 with
        | none => .ok table
        | some record =>
          if record.typeId = type then
            insertOwner env index.kind s.state.snapshot.property (.relationship, owner.2) keys table
          else .ok table) ∅

def materializeChangedOwnerValues : QueryResult IndexRows :=
  match index.target with
  | .nodeLookup => .ok ∅
  | .relationshipLookup => s.materializeRelationshipLookupValues changed
  | .nodeProperties label properties =>
    s.materializeNodePropertyValues env index changed label properties
  | .relationshipProperties relationshipType properties =>
    s.materializeRelationshipPropertyValues env index changed relationshipType properties

end QuerySnapshot

namespace IndexStore

variable {H : Type} [Ord H] [TransOrd H] [LawfulEqOrd H] [DecidableEq H] (x : IndexExternals H)
  (st : IndexStore H)

/-- The owners that changed between the anchor and the commit of a snapshot. -/
def changedSince (s : QuerySnapshot H) (index : IndexDefinition) (anchor : H) :
    QueryResult ChangedOwners :=
  if anchor = s.commit then .ok ∅
  else do
    let delta ← ofStorage (st.db.loadTouched anchor s.commit)
    pure (insertChanged ∅ (relevantChangedOwners s.connection index delta))

def preparePersistentGenerationOverlay (s : QuerySnapshot H) (index : IndexDefinition)
    (g : Generation H) : QueryResult Binding :=
  if g.anchor = s.commit ∧ s.queryLocalLayer.isNone then .ok ⟨g.entries, ∅, ∅⟩
  else do
    let changed ← st.changedSince s index g.anchor
    let changed := match s.queryLocalLayer with
      | none => changed
      | some layer => insertChanged changed (relevantChangedOwners s.connection index layer)
    let localRows ← s.materializeChangedOwnerValues x.env index changed
    pure ⟨g.entries, changed, localRows⟩

/-- `ensure_index_cache`: the rows of the view, of a generation where there is one and else of a
    build. -/
def ensureIndexCache (s : QuerySnapshot H) (index : IndexDefinition) :
    QueryResult (List ((IndexOwner × Nat) × IndexEntry)) := do
  let generation ← st.compatiblePersistentGeneration x s.commit index
  match generation with
  | some g => do
    let b ← st.preparePersistentGenerationOverlay x s index g
    pure b.view
  | none => do
    let rows ← s.rebuildLocal x.env index
    pure rows.toList

end IndexStore

/-! ## 5. Names that are interned later -/

/-- The dictionaries keep their rows. -/
structure NamesKept (ids ids' : Identities) : Prop where
  labels : ∀ id name, ids.labels.nameOf id = some name → ids'.labels.nameOf id = some name
  relationshipTypes : ∀ id name, ids.relationshipTypes.nameOf id = some name →
    ids'.relationshipTypes.nameOf id = some name
  propertyKeys : ∀ id name, ids.propertyKeys.nameOf id = some name →
    ids'.propertyKeys.nameOf id = some name

section Names

variable {d d' : Dictionary} (h : ∀ id name, d.nameOf id = some name → d'.nameOf id = some name)
include h

theorem find_kept {name : Text} {id : Int} (hfind : d.find name = some id) :
    d'.find name = some id :=
  Dictionary.find_nameOf.mpr (h id name (Dictionary.find_nameOf.mp hfind))

theorem nameOf_of_new {name : Text} {id : Int} (hnone : d.find name = none)
    (hfind : d'.find name = some id) : d.nameOf id = none := by
  cases hname : d.nameOf id with
  | none => rfl
  | some name' =>
    have hsame := h id name' hname
    rw [Dictionary.find_nameOf.mp hfind] at hsame
    rw [← Option.some.inj hsame] at hname
    rw [Dictionary.find_nameOf.mpr hname] at hnone
    cases hnone

theorem mapM_find_kept : ∀ {names : List Text} {ids : List Int},
    names.mapM d.find = some ids → names.mapM d'.find = some ids
  | [], ids, hids => hids
  | name :: names, ids, hids => by
    rw [List.mapM_cons, Option.bind_eq_bind, Option.bind_eq_some_iff] at hids
    obtain ⟨id, hid, hids⟩ := hids
    rw [Option.bind_eq_bind, Option.bind_eq_some_iff] at hids
    obtain ⟨rest, hrest, hids⟩ := hids
    cases hids
    rw [List.mapM_cons, find_kept h hid, mapM_find_kept hrest]
    rfl

theorem mapM_find_new : ∀ {names : List Text} {ids : List Int},
    names.mapM d.find = none → names.mapM d'.find = some ids → ∃ id ∈ ids, d.nameOf id = none
  | [], ids, hnone, _ => by cases hnone
  | name :: names, ids, hnone, hids => by
    rw [List.mapM_cons, Option.bind_eq_bind, Option.bind_eq_some_iff] at hids
    obtain ⟨id, hid, hids⟩ := hids
    rw [Option.bind_eq_bind, Option.bind_eq_some_iff] at hids
    obtain ⟨rest, hrest, hids⟩ := hids
    cases hids
    cases hfind : d.find name with
    | none => exact ⟨id, .head _, nameOf_of_new h hfind hid⟩
    | some id' =>
      cases hold : names.mapM d.find with
      | none =>
        obtain ⟨id, hmem, hnone⟩ := mapM_find_new hold hrest
        exact ⟨id, .tail _ hmem, hnone⟩
      | some rest' =>
        rw [List.mapM_cons, hfind, hold] at hnone
        cases hnone

end Names

theorem ownerRows_none {kind : StandardIndexKind} {read : PropertySlot → Option PropertyValue}
    {keys : List PropertyKeyId} {key : PropertyKeyId} (hkey : key ∈ keys)
    (hnone : read (owner.1, owner.2, key) = none) :
    ownerRows env kind read keys owner = .ok [] := by
  unfold ownerRows
  rw [if_neg]
  intro hall
  have hsome := List.all_eq_true.mp hall key hkey
  rw [hnone] at hsome
  cases hsome

/-- **Names that are interned later change no rows.** -/
theorem graphRows_names {ids ids' : Identities} {tuples : RelationshipTuples}
    (hknown : g.Known ids tuples) (h : NamesKept ids ids') (index : IndexDefinition)
    (owner : IndexOwner) : graphRows env ids' g index owner = graphRows env ids g index owner := by
  have hunknown : ∀ {properties : List Text} {keys : List PropertyKeyId},
      propertyKeyIds ids properties = none → propertyKeyIds ids' properties = some keys →
        ownerRows env index.kind (fun slot => g.properties[slot]?) keys owner = .ok [] := by
    intro properties keys hnone hkeys
    obtain ⟨key, hkey, hname⟩ := mapM_find_new h.propertyKeys hnone hkeys
    refine ownerRows_none hkey ?_
    cases hvalue : g.properties[(owner.1, owner.2, key)]? with
    | none => rfl
    | some value =>
      have hsome := hknown.properties _ value hvalue
      rw [hname] at hsome
      cases hsome
  unfold graphRows
  cases index.target with
  | nodeLookup => rfl
  | relationshipLookup => rfl
  | nodeProperties label properties =>
    dsimp only
    cases hlabel : ids.labels.find label with
    | some id =>
      rw [find_kept h.labels hlabel]
      cases hkeys : propertyKeyIds ids properties with
      | some keys =>
        have hkeys' : propertyKeyIds ids' properties = some keys :=
          mapM_find_kept h.propertyKeys hkeys
        rw [hkeys']
      | none =>
        cases hkeys' : propertyKeyIds ids' properties with
        | none => rfl
        | some keys =>
          dsimp only
          rw [hunknown hkeys hkeys']
          exact ite_self _
    | none =>
      cases hlabel' : ids'.labels.find label with
      | none => rfl
      | some id =>
        cases propertyKeyIds ids' properties with
        | none => rfl
        | some keys =>
          dsimp only
          rw [if_neg]
          intro hmember
          rw [ExtTreeMap.contains_eq_isSome_getElem?] at hmember
          have hsome := hknown.labels _ hmember.2
          rw [nameOf_of_new h.labels hlabel hlabel'] at hsome
          cases hsome
  | relationshipProperties relationshipType properties =>
    dsimp only
    unfold relationshipPropertyDomain
    cases htype : ids.relationshipTypes.find relationshipType with
    | some id =>
      rw [find_kept h.relationshipTypes htype]
      cases hkeys : propertyKeyIds ids properties with
      | some keys =>
        have hkeys' : propertyKeyIds ids' properties = some keys :=
          mapM_find_kept h.propertyKeys hkeys
        rw [hkeys']
      | none =>
        cases hkeys' : propertyKeyIds ids' properties with
        | none => rfl
        | some keys =>
          dsimp only [Option.bind_eq_bind, Option.bind, Option.pure_def]
          rw [hunknown hkeys hkeys']
          exact ite_self _
    | none =>
      cases htype' : ids'.relationshipTypes.find relationshipType with
      | none => rfl
      | some id =>
        cases propertyKeyIds ids' properties with
        | none => rfl
        | some keys =>
          dsimp only [Option.bind_eq_bind, Option.bind, Option.pure_def]
          rw [if_neg]
          intro hmember
          cases hrecord : g.relationships[owner.2]? with
          | none =>
            rw [hrecord] at hmember
            cases hmember.2
          | some record =>
            rw [hrecord] at hmember
            have hid : record.typeId = id := by simpa using hmember.2
            have hsome := (hknown.relationships _ record hrecord).2.2.2.1
            rw [hid, nameOf_of_new h.relationshipTypes htype htype'] at hsome
            cases hsome

/-! ## 6. Owners that did not change -/

theorem contains_insertChanged (owner : IndexOwner) :
    ∀ (owners : List IndexOwner) (changed : ChangedOwners),
      (insertChanged changed owners).contains owner = true ↔
        changed.contains owner = true ∨ owner ∈ owners
  | [], changed => by simp [insertChanged]
  | first :: owners, changed => by
    unfold insertChanged
    refine (contains_insertChanged owner owners _).trans ?_
    rw [ExtTreeMap.contains_insert, Bool.or_eq_true, List.mem_cons]
    have hfirst : (compare first owner == .eq) = true ↔ owner = first := by
      rw [beq_iff_eq, LawfulEqCmp.compare_eq_iff_eq]
      exact eq_comm
    tauto

/-- A layer whose relationships have the types they have in a graph. -/
def KeepsTypes (g : GraphState) (delta : LayerBuilder) : Prop :=
  ∀ (id : RelationshipId) d, delta.relationships[id]? = some d → d.record.id = id ∧
    ∀ record, g.relationships[id]? = some record → d.record.typeId = record.typeId

theorem ownerRows_apply {kind : StandardIndexKind} {delta : LayerBuilder}
    {keys : List PropertyKeyId} (h : owner ∉ changedProperties delta owner.1 keys) :
    ownerRows env kind (fun slot => (g.apply delta).properties[slot]?) keys owner =
      ownerRows env kind (fun slot => g.properties[slot]?) keys owner := by
  refine ownerRows_congr fun key hkey => ?_
  rw [GraphState.properties_apply]
  cases hd : delta.properties[(owner.1, owner.2, key)]? with
  | none => rfl
  | some d =>
    refine absurd (List.mem_map.mpr ⟨(owner.1, owner.2, key), List.mem_filter.mpr ⟨?_, ?_⟩, rfl⟩) h
    · rw [ExtTreeMap.mem_keys, ExtTreeMap.mem_iff_isSome_getElem?, hd]
      rfl
    · simpa using hkey

/-- **An owner that did not change keeps its rows.** -/
theorem graphRows_apply {connection : Identities} {delta : LayerBuilder} {index : IndexDefinition}
    (htypes : KeepsTypes g delta) (h : owner ∉ relevantChangedOwners connection index delta) :
    graphRows env connection (g.apply delta) index owner =
      graphRows env connection g index owner := by
  unfold relevantChangedOwners at h
  unfold graphRows
  cases htarget : index.target with
  | nodeLookup => rfl
  | relationshipLookup =>
    rw [htarget] at h
    unfold lookupRows
    by_cases hkind : owner.1 = .relationship
    · have hsame : (g.apply delta).relationships[owner.2]? = g.relationships[owner.2]? := by
        rw [GraphState.relationships_apply]
        cases hd : delta.relationships[owner.2]? with
        | none => rfl
        | some d =>
          refine absurd (List.mem_map.mpr ⟨(owner.2, d), mem_of_lookup hd, ?_⟩) h
          rw [(htypes owner.2 d hd).1, ← hkind]
      rw [if_pos hkind, if_pos hkind, hsame]
    · rw [if_neg hkind, if_neg hkind]
  | nodeProperties label properties =>
    rw [htarget] at h
    dsimp only at h ⊢
    cases hlabel : connection.labels.find label with
    | none => rfl
    | some id =>
      cases hkeys : propertyKeyIds connection properties with
      | none => rfl
      | some keys =>
        rw [hlabel, hkeys, List.mem_append, not_or] at h
        dsimp only
        by_cases hkind : owner.1 = .node
        · have hsame : (g.apply delta).labels.contains (owner.2, id) =
              g.labels.contains (owner.2, id) := by
            rw [ExtTreeMap.contains_eq_isSome_getElem?, ExtTreeMap.contains_eq_isSome_getElem?,
              GraphState.labels_apply]
            cases hop : delta.labels[(owner.2, id)]? with
            | none => rfl
            | some op =>
              refine absurd (List.mem_append_right _ (List.mem_map.mpr ⟨(owner.2, id),
                List.mem_filter.mpr ⟨?_, by simp⟩, by rw [← hkind]⟩)) h.1
              rw [ExtTreeMap.mem_keys, ExtTreeMap.mem_iff_isSome_getElem?, hop]
              rfl
          rw [hsame, ownerRows_apply (by rw [hkind]; exact h.2)]
        · rw [if_neg (fun hmember => hkind hmember.1), if_neg (fun hmember => hkind hmember.1)]
  | relationshipProperties relationshipType properties =>
    rw [htarget] at h
    dsimp only at h ⊢
    unfold relationshipPropertyDomain
    cases htype : connection.relationshipTypes.find relationshipType with
    | none => rfl
    | some id =>
      cases hkeys : propertyKeyIds connection properties with
      | none => rfl
      | some keys =>
        rw [htype, hkeys, List.mem_append, not_or] at h
        dsimp only [Option.bind_eq_bind, Option.bind, Option.pure_def]
        by_cases hkind : owner.1 = .relationship
        · have hsame : ((g.apply delta).relationships[owner.2]?).any (fun r => r.typeId = id) =
              (g.relationships[owner.2]?).any fun r => r.typeId = id := by
            rw [GraphState.relationships_apply]
            cases hd : delta.relationships[owner.2]? with
            | none => rfl
            | some d =>
              have hother : d.record.typeId ≠ id := by
                intro heq
                refine h.1 (List.mem_map.mpr ⟨(owner.2, d), List.mem_filter.mpr
                  ⟨mem_of_lookup hd, by simp [heq]⟩, ?_⟩)
                rw [(htypes owner.2 d hd).1, ← hkind]
              have hbefore : (g.relationships[owner.2]?).any (fun r => r.typeId = id) = false := by
                cases hrecord : g.relationships[owner.2]? with
                | none => rfl
                | some record =>
                  have htype := (htypes owner.2 d hd).2 record hrecord
                  simpa [← htype] using hother
              rw [hbefore]
              show (d.change).any _ = false
              unfold RelationshipDelta.change
              split
              · simpa using hother
              · rfl
          rw [hsame, ownerRows_apply (by rw [hkind]; exact h.2)]
        · rw [if_neg (fun hmember => hkind hmember.1), if_neg (fun hmember => hkind hmember.1)]

/-! ## 7. The rows of changed owners -/

/-- Labels stand on nodes that are there. -/
def LabelsOwned (g : GraphState) : Prop :=
  ∀ row : NodeId × LabelId, g.labels[row]?.isSome → g.nodes[row.1]?.isSome

namespace QuerySnapshot

variable {H : Type} {env : ValueEnv} {s : QuerySnapshot H} {index : IndexDefinition}

/-- **The rows of changed owners are those of a build.** -/
theorem materialize_eq (hs : s.state.Sound) (howned : LabelsOwned s.state.snapshot.graph)
    (changed : ChangedOwners) : s.materializeChangedOwnerValues env index changed =
      derive (graphRows env s.connection s.state.snapshot.graph index) changed.keys := by
  unfold materializeChangedOwnerValues graphRows
  cases index.target with
  | nodeLookup => exact (derive_empty _).symm
  | relationshipLookup =>
    unfold materializeRelationshipLookupValues derive
    refine list_foldlM_congr _ fun table owner _ => ?_
    obtain ⟨kind, id⟩ := owner
    rw [ok_bind, Snapshot.relationship_eq]
    unfold lookupRows
    by_cases hkind : kind = .relationship
    · subst hkind
      cases hrecord : s.state.snapshot.graph.relationships[id]? with
      | none => rfl
      | some record =>
        dsimp only
        rw [IndexedSnapshot.graph_keyed hs id record hrecord]
        rfl
    · rw [if_pos hkind, if_neg hkind]
      rfl
  | nodeProperties label properties =>
    dsimp only
    unfold materializeNodePropertyValues
    cases s.connection.labels.find label with
    | none => exact (derive_empty _).symm
    | some label =>
      cases propertyKeyIds s.connection properties with
      | none => exact (derive_empty _).symm
      | some keys =>
        unfold derive
        refine list_foldlM_congr _ fun table owner _ => ?_
        obtain ⟨kind, id⟩ := owner
        have hcontains := Snapshot.contains_visitNodeLabels hs.formed (id, label)
        rw [← ExtTreeMap.contains_eq_isSome_getElem?] at hcontains
        dsimp only at hcontains ⊢
        rw [hcontains]
        by_cases hmember : kind = .node ∧ s.state.snapshot.graph.labels.contains (id, label) = true
        · obtain ⟨rfl, hlabel⟩ := hmember
          have hnode : s.state.snapshot.nodeExists id = true := by
            rw [ExtTreeMap.contains_eq_isSome_getElem?] at hlabel
            rw [Snapshot.nodeExists_eq]
            exact howned (id, label) hlabel
          rw [if_neg (by simp [hnode, hlabel]), if_pos ⟨rfl, hlabel⟩, insertOwner_eq, read_eq]
        · rw [if_neg hmember, if_pos]
          · rfl
          · rw [Bool.or_eq_true, Bool.or_eq_true, Bool.not_eq_true', decide_eq_true_iff]
            by_cases hkind : kind = .node
            · have hlabel := eq_false_of_ne_true fun h => hmember ⟨hkind, h⟩
              exact Or.inr (by rw [hlabel]; rfl)
            · exact Or.inl (Or.inl hkind)
  | relationshipProperties relationshipType properties =>
    dsimp only
    unfold materializeRelationshipPropertyValues
    cases relationshipPropertyDomain s.connection relationshipType properties with
    | none => exact (derive_empty _).symm
    | some domain =>
      unfold derive
      refine list_foldlM_congr _ fun table owner _ => ?_
      obtain ⟨kind, id⟩ := owner
      dsimp only
      rw [Snapshot.relationship_eq]
      by_cases hkind : kind = .relationship
      · subst hkind
        rw [if_neg (not_not_intro rfl)]
        cases hrecord : s.state.snapshot.graph.relationships[id]? with
        | none => rfl
        | some record =>
          dsimp only
          by_cases htype : record.typeId = domain.1
          · rw [if_pos htype, if_pos ⟨rfl, by simpa using htype⟩, insertOwner_eq, read_eq]
          · rw [if_neg htype, if_neg (fun h => htype (by simpa using h.2))]
            rfl
      · rw [if_pos hkind, if_neg (fun h => hkind h.1)]
        rfl

end QuerySnapshot

/-! ## 8. Snapshots of a query -/

/-- `apply_layer_checked`: one more layer, staged over the commit. -/
def QuerySnapshot.stage {H : Type} (s : QuerySnapshot H) (layer : LayerBuilder) : QuerySnapshot H :=
  { s with
    state := s.state.applyLayer layer
    queryLocalLayer := some (layer.over (s.queryLocalLayer.getD {})) }

variable {H : Type} [Ord H] [TransOrd H] [LawfulEqOrd H] [DecidableEq H] {x : IndexExternals H}

/-- A relationship keeps its tuple: what a layer says of one that is stored agrees with its rows. -/
def KeepsTuples (tuples : RelationshipTuples) (layer : LayerBuilder) : Prop :=
  ∀ (id : RelationshipId) delta, layer.relationships[id]? = some delta →
    ∀ record ∈ tuples, record.id = delta.record.id → record = delta.record

/-- **The snapshots a query reads**: that of a commit, and what is staged over it. A node that is
    deleted has lost its labels before (`delete_node`). -/
inductive Opens (x : Externals H) (db : Database H) : QuerySnapshot H → Prop
  | resolve {commit : H} {state : IndexedSnapshot}
      (h : db.resolveState x commit none = .ok state) : Opens x db ⟨db.ids, commit, state, none⟩
  | stage {s : QuerySnapshot H} {layer : LayerBuilder} (h : Opens x db s) (hformed : layer.Formed)
      (htuples : KeepsTuples db.tuples layer)
      (howned : LabelsOwned (s.stage layer).state.snapshot.graph) : Opens x db (s.stage layer)

/-- What is known of the snapshot of a query: the commit below it, and the changes over that. -/
structure Opened (x : Externals H) (db : Database H) (s : QuerySnapshot H)
    (ls : List LayerBuilder) : Prop where
  lineage : Database.Lineage x db s.commit ls
  connection : s.connection = db.ids
  sound : s.state.Sound
  baseRows : ∀ (id : RelationshipId) record, s.state.base.relationships[id]? = some record →
    record ∈ db.tuples
  graph : s.state.snapshot.graph = (Database.graphOf ls).apply (s.queryLocalLayer.getD {})
  keyed : ∀ (id : RelationshipId) delta, (s.queryLocalLayer.getD {}).relationships[id]? =
    some delta → delta.record.id = id
  tuples : KeepsTuples db.tuples (s.queryLocalLayer.getD {})
  owned : LabelsOwned s.state.snapshot.graph

omit [LawfulEqOrd H] in
theorem resolveState_commit {x : Externals H} {db : Database H} {commit : H} {skip : Option H}
    {state : IndexedSnapshot} (h : db.resolveState x commit skip = .ok state) :
    ∃ row, db.commits[commit]? = some row := by
  obtain ⟨_, hlineage, _⟩ := bind_eq_ok.mp h
  obtain ⟨empty, _, hlineage⟩ := bind_eq_ok.mp hlineage
  unfold Database.resolveLineageFrom at hlineage
  obtain ⟨_, hrow, _⟩ := bind_eq_ok.mp hlineage
  unfold Database.loadLineageRow at hrow
  split at hrow
  · cases hrow
  · rename_i row hcommit
    exact ⟨row, hcommit⟩

/-- **Each snapshot of a query shows its commit under the staged changes.** -/
theorem Opens.opened {x : Externals H} {db : Database H} (hdb : Database.Sound x db)
    {s : QuerySnapshot H} (h : Opens x db s) : ∃ ls, Opened x db s ls := by
  induction h with
  | @resolve commit state hstate =>
    obtain ⟨row, hrow⟩ := resolveState_commit hstate
    obtain ⟨state', ls, hstate', hls, hgraph, hvalid, _, _⟩ := hdb.resolve hrow none
    rw [hstate] at hstate'
    cases hstate'
    refine ⟨ls, hls, rfl, hvalid.sound, hvalid.baseRows, ?_, fun id delta h => ?_,
      fun id delta h => ?_, hvalid.consistent.labels⟩
    · rw [hgraph]
      exact (GraphState.apply_empty _).symm
    · simp at h
    · simp at h
  | @stage s layer _ hformed htuples howned ih =>
    obtain ⟨ls, hls, hconnection, hsound, hbase, hgraph, hkeyed, hkept, _⟩ := ih
    have hlook : ∀ {id : RelationshipId} {delta : RelationshipDelta},
        (layer.over (s.queryLocalLayer.getD {})).relationships[id]? = some delta →
          layer.relationships[id]? = some delta ∨
            (s.queryLocalLayer.getD {}).relationships[id]? = some delta := by
      intro id delta h
      have hover : (insertEntries (s.queryLocalLayer.getD {}).relationships
        layer.relationships)[id]? = some delta := h
      rw [getElem?_insertEntries] at hover
      cases hl : layer.relationships[id]? with
      | none =>
        rw [hl] at hover
        exact Or.inr hover
      | some d =>
        rw [hl] at hover
        exact Or.inl hover
    refine ⟨ls, hls, hconnection, IndexedSnapshot.sound_applyLayer hsound hformed
      fun id record delta hrecord hdelta => ?_, hbase, ?_, fun id delta h => ?_,
      fun id delta h => ?_, howned⟩
    · refine (htuples id delta hdelta record (hbase id record hrecord) ?_).symm
      rw [hsound.formed.base id record hrecord, hformed.keyed id delta hdelta]
    · show (s.state.applyLayer layer).snapshot.graph = _
      rw [IndexedSnapshot.snapshot_applyLayer hsound hformed, Snapshot.graph_applyLayer, hgraph]
      exact (GraphState.apply_over _ _ _).symm
    · exact (hlook h).elim (hformed.keyed id delta) (hkeyed id delta)
    · exact (hlook h).elim (htuples id delta) (hkept id delta)

end Query

end Lithograph
