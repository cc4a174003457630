/-
  File:      Lithograph/Query/Schema/IndexEntries.lean
  Subject:   The rows of a standard index and how they are built from a snapshot
             (`query/schema/index/cache.rs`, `query/schema/index/persistent.rs`,
             `query/schema/index/persistent/controlled.rs`).

  An owner has one row for each property of the index, if it has all of them with values the index
  supports. A row is given as its columns hold it.
-/
import Lithograph.Cypher.Value
import Lithograph.Library.Derived
import Lithograph.Query.Schema.Equality
import Lithograph.Storage.Answers
import Lithograph.Storage.Invariants
import Lithograph.Storage.SchemaState

namespace Lithograph.Query

open Std Library Storage Cypher

/-! ## 1. Order keys -/

/-- A value for a NUMERIC column. -/
inductive SqlNumber where
  | integer (value : Int)
  | real (value : F64)
  deriving DecidableEq

inductive RangeOrderKey where
  | number (value : SqlNumber)
  | text (value : Text)
  | tuple (family a b c : Int) (text : Text)
  deriving DecidableEq

/-- `i64::try_from(..).ok()`. -/
def toI64 (n : Int) : Option Int := if -2 ^ 63 ≤ n ∧ n < 2 ^ 63 then some n else none

/-- `range_order_key`. The families are those of `RANGE_FAMILY_BOOLEAN` and the others. -/
def rangeOrderKey : Value → Option RangeOrderKey
  | .boolean value => some (.tuple 1 (if value then 1 else 0) 0 0 [])
  | .integer value => some (.number (.integer value))
  | .float value => if value.isNan then none else some (.number (.real value))
  | .string value => some (.text value)
  | .date value => some (.tuple 4 value.days 0 0 [])
  | .localTime value => do
    let nanoseconds ← toI64 value.nanoseconds
    pure (.tuple 5 nanoseconds 0 0 [])
  | .time value => do
    let instant ← toI64 value.instantKey
    pure (.tuple 6 instant value.offsetSeconds 0 [])
  | .localDateTime value => do
    let nanoseconds ← toI64 value.nanoseconds
    pure (.tuple 7 value.days nanoseconds 0 [])
  | .zonedDateTime value => do
    let seconds ← toI64 (value.instantNanoseconds / 1000000000)
    let nanoseconds ← toI64 (value.instantNanoseconds % 1000000000)
    pure (.tuple 8 seconds nanoseconds value.offsetSeconds value.zone)
  | _ => none

/-- What reading a stored value back takes from elsewhere. -/
structure ValueEnv where
  zones : ZoneDatabase
  wrapLongitude : F64 → F64

def orderKey (env : ValueEnv) (kind : StandardIndexKind) (value : PropertyValue) :
    QueryResult (Option RangeOrderKey) :=
  if kind ≠ .range then .ok none
  else
    match value with
    | .string value => .ok (some (.text value))
    | .list _ | .vector _ | .point _ | .uuid _ | .duration _ _ _ _ => .ok none
    | value => do
      let value ← borrowedProperty env.zones env.wrapLongitude value
      pure (rangeOrderKey value)

/-! ## 2. Rows -/

/-- NUMERIC affinity: a REAL that is an integer, and not one of the two extremes, is kept as one. -/
def SqlNumber.stored : SqlNumber → SqlNumber
  | .integer value => .integer value
  | .real value =>
    match floatAsExactInteger value with
    | some number => if -2 ^ 63 < number ∧ number < 2 ^ 63 - 1 then .integer number else .real value
    | none => .real value

/-- REAL affinity: NaN is NULL, and a zero has no sign. -/
def storedReal (value : F64) : Option F64 :=
  if value.isNan then none else if floatMagnitude value = 0 then some ⟨0⟩ else some value

/-- The columns of a row of an index, behind its key. -/
structure IndexEntry where
  tokenId : Option Int := none
  valueBlob : Option Bytes := none
  equalityBlob : Option Bytes := none
  textValue : Option Text := none
  sortFamily : Option Int := none
  sortNumber : Option SqlNumber := none
  sortA : Option Int := none
  sortB : Option Int := none
  sortC : Option Int := none
  sortText : Option Text := none
  pointCrs : Option Int := none
  pointX : Option F64 := none
  pointY : Option F64 := none
  pointZ : Option F64 := none

namespace IndexEntry

/-- What the columns hold of a row they are given. -/
def stored (entry : IndexEntry) : IndexEntry :=
  { entry with
    sortNumber := entry.sortNumber.map SqlNumber.stored
    pointX := entry.pointX.bind storedReal
    pointY := entry.pointY.bind storedReal
    pointZ := entry.pointZ.bind storedReal }

/-- The sort columns of a row. -/
def withOrder (entry : IndexEntry) : Option RangeOrderKey → IndexEntry
  | some (.number number) => { entry with sortFamily := some 2, sortNumber := some number }
  | some (.text text) => { entry with sortFamily := some 3, sortText := some text }
  | some (.tuple family a b c text) =>
    { entry with
      sortFamily := some family
      sortA := some a
      sortB := some b
      sortC := some c
      sortText := some text }
  | none => entry

/-- The columns of a point. -/
def withPoint (entry : IndexEntry) : PropertyValue → IndexEntry
  | .point point =>
    { entry with
      pointCrs := some point.crs
      pointX := point.coordinates[0]?
      pointY := point.coordinates[1]?
      pointZ := point.coordinates[2]? }
  | _ => entry

end IndexEntry

/-- The text of a string. -/
def stringText : PropertyValue → Option Text
  | .string value => some value
  | _ => none

/-- `insert_value`: the row of one value. -/
def insertValue (env : ValueEnv) (kind : StandardIndexKind) (value : PropertyValue) :
    QueryResult IndexEntry := do
  let valueBlob ← ofStorage value.canonicalBytes
  let equalityBlob ← equalityKey value
  let order ← orderKey env kind value
  let entry : IndexEntry :=
    { valueBlob := some valueBlob, equalityBlob, textValue := stringText value }
  pure ((entry.withOrder order).withPoint value).stored

/-- `CACHE_LOOKUP_INSERT_SQL`: the row of a relationship. -/
def lookupEntry (type : RelationshipTypeId) : IndexEntry := { tokenId := some type }

theorem SqlNumber.stored_stored (number : SqlNumber) : number.stored.stored = number.stored := by
  cases number with
  | integer value => rfl
  | real value =>
    cases hexact : floatAsExactInteger value with
    | none =>
      have hreal : SqlNumber.stored (.real value) = .real value := by
        unfold SqlNumber.stored
        simp only [hexact]
      rw [hreal, hreal]
    | some number =>
      by_cases hrange : -2 ^ 63 < number ∧ number < 2 ^ 63 - 1
      · have hinteger : SqlNumber.stored (.real value) = .integer number := by
          unfold SqlNumber.stored
          simp only [hexact, if_pos hrange]
        rw [hinteger]
        rfl
      · have hreal : SqlNumber.stored (.real value) = .real value := by
          unfold SqlNumber.stored
          simp only [hexact, if_neg hrange]
        rw [hreal, hreal]

theorem storedReal_stored (value : F64) :
    (storedReal value).bind storedReal = storedReal value := by
  unfold storedReal
  by_cases hnan : value.isNan
  · simp [hnan]
  · by_cases hzero : floatMagnitude value = 0
    · simp only [hnan, hzero]
      rfl
    · simp [hnan, hzero]

theorem IndexEntry.stored_stored (entry : IndexEntry) : entry.stored.stored = entry.stored := by
  unfold IndexEntry.stored
  simp only [Option.map_map, Option.bind_assoc, storedReal_stored,
    show SqlNumber.stored ∘ SqlNumber.stored = SqlNumber.stored from
      funext SqlNumber.stored_stored]

/-- **A row that was built can be copied.** -/
theorem stored_insertValue {env : ValueEnv} {kind : StandardIndexKind} {value : PropertyValue}
    {entry : IndexEntry} (h : insertValue env kind value = .ok entry) : entry.stored = entry := by
  obtain ⟨_, _, h⟩ := bind_eq_ok.mp h
  obtain ⟨_, _, h⟩ := bind_eq_ok.mp h
  obtain ⟨_, _, h⟩ := bind_eq_ok.mp h
  cases h
  exact IndexEntry.stored_stored _

/-! ## 3. Owners -/

abbrev IndexOwner := OwnerKind × Int

instance : TransOrd (IndexOwner × Nat) := inferInstance

/-- The rows of an index, by owner and the number of the property. -/
abbrev IndexRows := RowTable IndexOwner IndexEntry

def cacheValueSupported : StandardIndexKind → PropertyValue → Bool
  | .lookup, _ | .fullText, _ | .vector, _ | .semantic, _ => false
  | .text, .string _ => true
  | .point, .point _ => true
  | .range, _ => true
  | _, _ => false

def propertyKeyIds (connection : Identities) (properties : List Text) :
    Option (List PropertyKeyId) :=
  properties.mapM connection.propertyKeys.find

def relationshipPropertyDomain (connection : Identities) (relationshipType : Text)
    (properties : List Text) : Option (RelationshipTypeId × List PropertyKeyId) := do
  let type ← connection.relationshipTypes.find relationshipType
  let keys ← propertyKeyIds connection properties
  pure (type, keys)

/-- The value `insert_owner` has seen before. -/
def presentValue : Option PropertyValue → QueryResult PropertyValue
  | some value => .ok value
  | none => .error (.internal "index property changed during build")

/-- The row of one property of an owner. -/
def propertyEntry (env : ValueEnv) (kind : StandardIndexKind)
    (read : PropertySlot → Option PropertyValue) (owner : IndexOwner) (key : PropertyKeyId) :
    QueryResult IndexEntry := do
  let value ← presentValue (read (owner.1, owner.2, key))
  insertValue env kind value

/-- `insert_owner`, where `read` gives the properties of the snapshot. -/
def insertOwner (env : ValueEnv) (kind : StandardIndexKind)
    (read : PropertySlot → Option PropertyValue) (owner : IndexOwner) (keys : List PropertyKeyId)
    (table : IndexRows) : QueryResult IndexRows :=
  if keys.all fun key => (read (owner.1, owner.2, key)).any (cacheValueSupported kind) then
    keys.zipIdx.foldlM (fun table e => do
      let entry ← propertyEntry env kind read owner e.1
      pure (table.insert (owner, e.2) entry)) table
  else .ok table

/-- The rows of one owner. -/
def ownerRows (env : ValueEnv) (kind : StandardIndexKind)
    (read : PropertySlot → Option PropertyValue) (keys : List PropertyKeyId) (owner : IndexOwner) :
    QueryResult (List IndexEntry) :=
  if keys.all fun key => (read (owner.1, owner.2, key)).any (cacheValueSupported kind) then
    keys.mapM (propertyEntry env kind read owner)
  else .ok []

/-- **`insert_owner` writes the rows of the owner.** -/
theorem insertOwner_eq (env : ValueEnv) (kind : StandardIndexKind)
    (read : PropertySlot → Option PropertyValue) (owner : IndexOwner) (keys : List PropertyKeyId)
    (table : IndexRows) : insertOwner env kind read owner keys table = (do
      let found ← ownerRows env kind read keys owner
      pure (insertRows table owner found)) := by
  unfold insertOwner ownerRows
  split
  · exact foldlM_insertRow owner (propertyEntry env kind read owner) keys 0 table
  · rfl

variable {keys : List PropertyKeyId} {owner : IndexOwner}

theorem ownerRows_congr {env : ValueEnv} {kind : StandardIndexKind}
    {read read' : PropertySlot → Option PropertyValue}
    (h : ∀ key ∈ keys, read' (owner.1, owner.2, key) = read (owner.1, owner.2, key)) :
    ownerRows env kind read' keys owner = ownerRows env kind read keys owner := by
  have hall : (keys.all fun key => (read' (owner.1, owner.2, key)).any (cacheValueSupported kind)) =
      keys.all fun key => (read (owner.1, owner.2, key)).any (cacheValueSupported kind) := by
    rw [Bool.eq_iff_iff, List.all_eq_true, List.all_eq_true]
    exact forall_congr' fun key => forall_congr' fun hkey => by rw [h key hkey]
  unfold ownerRows
  rw [hall]
  split
  · exact mapM_congr_mem fun key hkey => by
      unfold propertyEntry
      rw [h key hkey]
  · rfl

/-! ## 4. Builds -/

/-- `Snapshot`, as a query has it: dictionaries, the commit it is pinned to, what it shows, and what
    is staged over it. -/
structure QuerySnapshot (H : Type) where
  connection : Identities
  commit : H
  state : IndexedSnapshot
  queryLocalLayer : Option LayerBuilder := none

namespace QuerySnapshot

variable {H : Type} (env : ValueEnv) (s : QuerySnapshot H) (index : IndexDefinition)

def buildPage : Nat := 64

def buildNodes (label : LabelId) (keys : List PropertyKeyId) : QueryResult IndexRows :=
  (s.state.scanNodes (some label) buildPage).foldlM (fun table owner =>
    insertOwner env index.kind s.state.snapshot.property (.node, owner) keys table) ∅

def buildRelationships (type : Option RelationshipTypeId) (keys : List PropertyKeyId) :
    QueryResult IndexRows :=
  (s.state.scanRelationships none buildPage).foldlM (fun table record =>
    match type with
    | some type =>
      if type ≠ record.typeId then .ok table
      else insertOwner env index.kind s.state.snapshot.property (.relationship, record.id) keys table
    | none => .ok (table.insert ((.relationship, record.id), 0) (lookupEntry record.typeId))) ∅

def buildNodeProperties (label : Text) (properties : List Text) : QueryResult IndexRows :=
  match s.connection.labels.find label with
  | none => .ok ∅
  | some label =>
    match propertyKeyIds s.connection properties with
    | none => .ok ∅
    | some keys => s.buildNodes env index label keys

def buildRelationshipProperties (relationshipType : Text) (properties : List Text) :
    QueryResult IndexRows :=
  match relationshipPropertyDomain s.connection relationshipType properties with
  | none => .ok ∅
  | some (type, keys) => s.buildRelationships env index (some type) keys

def rebuildLocal : QueryResult IndexRows :=
  match index.target with
  | .nodeLookup => .ok ∅
  | .relationshipLookup => s.buildRelationships env index none []
  | .nodeProperties label properties => s.buildNodeProperties env index label properties
  | .relationshipProperties relationshipType properties =>
    s.buildRelationshipProperties env index relationshipType properties

end QuerySnapshot

/-! ## 5. What a build derives -/

/-- The rows of a relationship in the lookup index. -/
def lookupRows (g : GraphState) (owner : IndexOwner) : List IndexEntry :=
  if owner.1 = .relationship then
    match g.relationships[owner.2]? with
    | some record => [lookupEntry record.typeId]
    | none => []
  else []

/-- **The rows an index has for an owner**, where the owner has the label or the type of the index.
    -/
def graphRows (env : ValueEnv) (connection : Identities) (g : GraphState) (index : IndexDefinition)
    (owner : IndexOwner) : QueryResult (List IndexEntry) :=
  match index.target with
  | .nodeLookup => .ok []
  | .relationshipLookup => .ok (lookupRows g owner)
  | .nodeProperties label properties =>
    match connection.labels.find label, propertyKeyIds connection properties with
    | some label, some keys =>
      if owner.1 = .node ∧ g.labels.contains (owner.2, label) then
        ownerRows env index.kind (fun slot => g.properties[slot]?) keys owner
      else .ok []
    | _, _ => .ok []
  | .relationshipProperties relationshipType properties =>
    match relationshipPropertyDomain connection relationshipType properties with
    | some (type, keys) =>
      if owner.1 = .relationship ∧ (g.relationships[owner.2]?).any fun r => r.typeId = type then
        ownerRows env index.kind (fun slot => g.properties[slot]?) keys owner
      else .ok []
    | none => .ok []

/-- **The table is that of an index on a graph.** -/
def IsIndexOf (env : ValueEnv) (connection : Identities) (g : GraphState) (index : IndexDefinition)
    (t : IndexRows) : Prop :=
  Holds (graphRows env connection g index) t

namespace QuerySnapshot

variable {H : Type} {env : ValueEnv} {s : QuerySnapshot H} {index : IndexDefinition}

theorem read_eq (s : QuerySnapshot H) :
    s.state.snapshot.property = fun slot => s.state.snapshot.graph.properties[slot]? :=
  funext fun slot => Snapshot.property_eq s.state.snapshot slot

theorem scanRelationships_all (s : QuerySnapshot H) : s.state.scanRelationships none buildPage =
    s.state.snapshot.graph.relationships.toList.map Prod.snd := by
  rw [IndexedSnapshot.scanRelationships_eq]
  unfold IndexedSnapshot.graphRelationships
  simp

theorem buildNodes_eq (hs : s.state.Sound) {label : LabelId}
    (rows : IndexOwner → QueryResult (List IndexEntry))
    (hrows : ∀ node, s.state.snapshot.graph.labels.contains (node, label) = true →
      rows (.node, node) = ownerRows env index.kind
        (fun slot => s.state.snapshot.graph.properties[slot]?) keys (.node, node)) :
    s.buildNodes env index label keys = derive rows
      ((s.state.scanNodes (some label) buildPage).map fun node => (.node, node)) := by
  unfold buildNodes derive
  rw [List.foldlM_map]
  refine list_foldlM_congr _ fun table node hnode => ?_
  rw [IndexedSnapshot.scanNodes_eq hs] at hnode
  obtain ⟨e, he, rfl⟩ := List.mem_map.mp hnode
  have hlabel := IndexedSnapshot.mem_graphNodes.mp he
  rw [insertOwner_eq, read_eq, hrows e.1 (by
    rw [ExtTreeMap.contains_eq_isSome_getElem?, hlabel]
    rfl)]

theorem buildRelationships_eq (hs : s.state.Sound) {type : RelationshipTypeId}
    (rows : IndexOwner → QueryResult (List IndexEntry)) (hrows : ∀ (id : RelationshipId) record,
      s.state.snapshot.graph.relationships[id]? = some record →
        rows (.relationship, id) = if record.typeId = type then ownerRows env index.kind
          (fun slot => s.state.snapshot.graph.properties[slot]?) keys (.relationship, id)
        else .ok []) : s.buildRelationships env index (some type) keys = derive rows
      (s.state.snapshot.graph.relationships.toList.map fun e => (.relationship, e.1)) := by
  unfold buildRelationships derive
  rw [scanRelationships_all, List.foldlM_map, List.foldlM_map]
  refine list_foldlM_congr _ fun table e he => ?_
  have hlook := lookup_of_mem (k := e.1) (v := e.2) he
  have hid : e.2.id = e.1 := IndexedSnapshot.graph_keyed hs e.1 e.2 hlook
  show (if type ≠ e.2.typeId then .ok table else insertOwner env index.kind
    s.state.snapshot.property (.relationship, e.2.id) keys table) = _
  rw [hrows e.1 e.2 hlook]
  by_cases htype : type = e.2.typeId
  · rw [if_neg (not_not_intro htype), if_pos htype.symm, insertOwner_eq, read_eq, hid]
  · rw [if_pos htype, if_neg (fun h => htype h.symm)]
    rfl

theorem buildLookup_eq (hs : s.state.Sound) :
    s.buildRelationships env index none [] = derive
      (fun owner => .ok (lookupRows s.state.snapshot.graph owner))
      (s.state.snapshot.graph.relationships.toList.map fun e => (.relationship, e.1)) := by
  unfold buildRelationships derive
  rw [scanRelationships_all, List.foldlM_map, List.foldlM_map]
  refine list_foldlM_congr _ fun table e he => ?_
  have hlook := lookup_of_mem (k := e.1) (v := e.2) he
  have hid : e.2.id = e.1 := IndexedSnapshot.graph_keyed hs e.1 e.2 hlook
  have hrows : lookupRows s.state.snapshot.graph (.relationship, e.1) =
      [lookupEntry e.2.typeId] := by
    unfold lookupRows
    rw [if_pos rfl, hlook]
  simp only [hid, hrows, ok_bind]
  rfl

theorem not_scanned (hs : s.state.Sound) {label : LabelId}
    (h : owner ∉ (s.state.scanNodes (some label) buildPage).map
      fun node => ((OwnerKind.node, node) : IndexOwner)) :
    ¬ (owner.1 = .node ∧ s.state.snapshot.graph.labels.contains (owner.2, label) = true) := by
  intro hmember
  obtain ⟨hkind, hlabel⟩ := hmember
  refine h (List.mem_map.mpr ⟨owner.2, ?_, by rw [← hkind]⟩)
  rw [ExtTreeMap.contains_eq_isSome_getElem?] at hlabel
  obtain ⟨u, hu⟩ := Option.isSome_iff_exists.mp hlabel
  rw [IndexedSnapshot.scanNodes_eq hs]
  exact List.mem_map.mpr ⟨(owner.2, ()), IndexedSnapshot.mem_graphNodes.mpr hu, rfl⟩

theorem not_related {g : GraphState}
    (h : owner ∉ g.relationships.toList.map fun e => ((OwnerKind.relationship, e.1) : IndexOwner)) :
    owner.1 = .relationship → g.relationships[owner.2]? = none := by
  intro hkind
  cases hlook : g.relationships[owner.2]? with
  | none => rfl
  | some record =>
    exact absurd (List.mem_map.mpr ⟨(owner.2, record), mem_of_lookup hlook,
      by rw [← hkind]⟩) h

/-- **A build makes the table of the index** on the graph of the snapshot. -/
theorem rebuildLocal_iff (hs : s.state.Sound) {t : IndexRows} :
    s.rebuildLocal env index = .ok t ↔
      IsIndexOf env s.connection s.state.snapshot.graph index t := by
  have hempty : (Except.ok ∅ : QueryResult IndexRows) = derive (fun _ => .ok []) [] := rfl
  unfold rebuildLocal IsIndexOf graphRows
  cases index.target with
  | nodeLookup => exact hempty ▸ derive_iff fun _ _ => rfl
  | relationshipLookup =>
    rw [buildLookup_eq hs]
    refine derive_iff fun owner howner => ?_
    unfold lookupRows
    split
    · rename_i hkind
      rw [not_related howner hkind]
    · rfl
  | nodeProperties label properties =>
    dsimp only
    unfold buildNodeProperties
    cases s.connection.labels.find label with
    | none => exact hempty ▸ derive_iff fun _ _ => rfl
    | some label =>
      cases propertyKeyIds s.connection properties with
      | none => exact hempty ▸ derive_iff fun _ _ => rfl
      | some keys =>
        dsimp only
        rw [buildNodes_eq hs (fun owner =>
          if owner.1 = .node ∧ s.state.snapshot.graph.labels.contains (owner.2, label) then
            ownerRows env index.kind (fun slot => s.state.snapshot.graph.properties[slot]?) keys owner
          else .ok []) fun node hnode => if_pos ⟨rfl, hnode⟩]
        exact derive_iff fun owner howner => if_neg (not_scanned hs howner)
  | relationshipProperties relationshipType properties =>
    dsimp only
    unfold buildRelationshipProperties
    cases relationshipPropertyDomain s.connection relationshipType properties with
    | none => exact hempty ▸ derive_iff fun _ _ => rfl
    | some domain =>
      dsimp only
      rw [buildRelationships_eq hs (fun owner =>
        if owner.1 = .relationship ∧
            (s.state.snapshot.graph.relationships[owner.2]?).any fun r => r.typeId = domain.1 then
          ownerRows env index.kind (fun slot => s.state.snapshot.graph.properties[slot]?)
            domain.2 owner
        else .ok []) fun id record hlook => by simp [hlook]]
      refine derive_iff fun owner howner => if_neg fun h => ?_
      rw [not_related howner h.1] at h
      simp at h

end QuerySnapshot

end Lithograph.Query
