/-
  File:      Lithograph/Storage/Allocation.lean
  Subject:   The sequences and dictionaries that hand out identifiers, and a database over any run
             of allocations, commits, collections, savepoints and restored allocation states
             (`storage/identity.rs`, `storage/version/state.rs`).

  A captured allocation state is a value outside the database, so that it outlives the rollback of
  what it was captured from. The update of a sequence finds its row, as there is one writer.

  * `ids_never_reused`: no identifier of any commit is ever handed out again.
-/
import Lithograph.Library.Transaction
import Lithograph.Storage.Collect
import Lithograph.Storage.Allocated

namespace Lithograph.Storage

open Std Library

/-! ## 1. Sequences -/

/-- The rows of `_lithograph_sequences`. -/
inductive Sequence where
  | node | relationship | label | relationshipType | propertyKey | layer
  deriving DecidableEq

/-- `NODE_SEQUENCE` and the others. -/
def Sequence.kind : Sequence → Int
  | .node => 1
  | .relationship => 2
  | .label => 3
  | .relationshipType => 4
  | .propertyKey => 5
  | .layer => 6

def Sequence.all : List Sequence :=
  [.node, .relationship, .label, .relationshipType, .propertyKey, .layer]

/-- The dictionary tables. -/
inductive DictionaryTable where
  | labels | relationshipTypes | propertyKeys
  deriving DecidableEq

/-- The sequence of a dictionary. -/
def DictionaryTable.sequence : DictionaryTable → Sequence
  | .labels => .label
  | .relationshipTypes => .relationshipType
  | .propertyKeys => .propertyKey

/-- A database file with the sequences of its dictionaries, too. -/
structure SequencedDatabase (H : Type) [Ord H] extends Database H where
  nextLabel : Int := 1
  nextRelationshipType : Int := 1
  nextPropertyKey : Int := 1

structure AllocationState where
  sequences : List (Int × Int)
  labels : List (Int × Text)
  relationshipTypes : List (Int × Text)
  propertyKeys : List (Int × Text)

/-- A row of a dictionary table, where its unique keys allow it. -/
def Dictionary.insert (d : Dictionary) (id : Int) (name : Text) : Option Dictionary :=
  if h : id ∉ d.rows.map Prod.fst ∧ name ∉ d.rows.map Prod.snd then
    some {
      rows := d.rows ++ [(id, name)]
      ids_nodup := by
        rw [List.map_append, List.map_singleton, ← List.concat_eq_append]
        exact List.Nodup.concat h.1 d.ids_nodup
      names_nodup := by
        rw [List.map_append, List.map_singleton, ← List.concat_eq_append]
        exact List.Nodup.concat h.2 d.names_nodup }
  else none

namespace SequencedDatabase

variable {H : Type} [Ord H]

/-- `SELECT next_id FROM main._lithograph_sequences`. -/
def nextId (db : SequencedDatabase H) : Sequence → Int
  | .node => db.ids.nextNode
  | .relationship => db.ids.nextRelationship
  | .label => db.nextLabel
  | .relationshipType => db.nextRelationshipType
  | .propertyKey => db.nextPropertyKey
  | .layer => db.layers.nextId

/-- `UPDATE main._lithograph_sequences SET next_id`. -/
def setNextId (db : SequencedDatabase H) : Sequence → Int → SequencedDatabase H
  | .node, next => { db with ids := { db.ids with nextNode := next } }
  | .relationship, next => { db with ids := { db.ids with nextRelationship := next } }
  | .label, next => { db with nextLabel := next }
  | .relationshipType, next => { db with nextRelationshipType := next }
  | .propertyKey, next => { db with nextPropertyKey := next }
  | .layer, next => { db with layers := { db.layers with nextId := next } }

def dictionary (db : SequencedDatabase H) : DictionaryTable → Dictionary
  | .labels => db.ids.labels
  | .relationshipTypes => db.ids.relationshipTypes
  | .propertyKeys => db.ids.propertyKeys

def setDictionary (db : SequencedDatabase H) : DictionaryTable → Dictionary → SequencedDatabase H
  | .labels, d => { db with ids := { db.ids with labels := d } }
  | .relationshipTypes, d => { db with ids := { db.ids with relationshipTypes := d } }
  | .propertyKeys, d => { db with ids := { db.ids with propertyKeys := d } }

/-- The error of a sequence that has no range left. -/
def exhausted (q : Sequence) : String :=
  "sequence " ++ toString q.kind ++ " cannot allocate another positive INTEGER64 identity range"

/-- `allocate_id_range`; the count is a `u64`. -/
def allocateIdRange (q : Sequence) (count : Nat) :
    EStateM StorageError (SequencedDatabase H) Int := do
  lifted (corruptWhen (count == 0) "identity allocation range must contain at least one id")
  let current ← reading fun db => .ok (db.nextId q)
  lifted (corruptWhen (decide (2 ^ 63 ≤ count))
    ("sequence " ++ toString q.kind ++ " allocation range is too large"))
  lifted (corruptWhen (decide (2 ^ 63 ≤ current + count)) (exhausted q))
  lifted (corruptWhen (decide (current ≤ 0 ∨ current + count ≤ current)) (exhausted q))
  writing fun db => db.setNextId q (current + count)
  pure current

def allocateId (q : Sequence) : EStateM StorageError (SequencedDatabase H) Int :=
  allocateIdRange q 1

/-- The insertion of `intern_name`. -/
def insertName (table : DictionaryTable) (id : Int) (name : Text) :
    EStateM StorageError (SequencedDatabase H) Unit := do
  let d ← reading fun db => match (db.dictionary table).insert id name with
    | some d => .ok d
    | none => .error (.constraint "UNIQUE constraint failed")
  writing fun db => db.setDictionary table d

def internName (table : DictionaryTable) (name : Text) :
    EStateM StorageError (SequencedDatabase H) Int := do
  match ← reading fun db => .ok ((db.dictionary table).find name) with
  | some id => pure id
  | none => do
    let id ← allocateId table.sequence
    insertName table id name
    pure id

/-- `SELECT id, name … ORDER BY id`. -/
def readDictionary (d : Dictionary) : List (Int × Text) :=
  d.rows.mergeSort fun a b => decide (a.1 ≤ b.1)

def captureAllocationState (db : SequencedDatabase H) : AllocationState where
  sequences := Sequence.all.map fun q => (q.kind, db.nextId q)
  labels := readDictionary db.ids.labels
  relationshipTypes := readDictionary db.ids.relationshipTypes
  propertyKeys := readDictionary db.ids.propertyKeys

/-- `restore_dictionary`: `INSERT OR IGNORE` for each row. -/
def restoreDictionary (values : List (Int × Text)) (d : Dictionary) : Dictionary :=
  values.foldl (fun d row => (d.insert row.1 row.2).getD d) d

/-- `SET next_id = max(next_id, ?2) WHERE kind = ?1`. -/
def restoreSequence (db : SequencedDatabase H) (row : Int × Int) : SequencedDatabase H :=
  match Sequence.all.find? fun q => q.kind == row.1 with
  | some q => db.setNextId q (max (db.nextId q) row.2)
  | none => db

def restoreAllocationState (db : SequencedDatabase H) (state : AllocationState) :
    SequencedDatabase H :=
  let db := db.setDictionary .labels (restoreDictionary state.labels db.ids.labels)
  let db := db.setDictionary .relationshipTypes
    (restoreDictionary state.relationshipTypes db.ids.relationshipTypes)
  let db := db.setDictionary .propertyKeys
    (restoreDictionary state.propertyKeys db.ids.propertyKeys)
  state.sequences.foldl restoreSequence db

/-! ## 2. Runs -/

/-- The database a call leaves, whether it returns or fails. -/
def leaves {α : Type} (x : EStateM StorageError (SequencedDatabase H) α)
    (db : SequencedDatabase H) : SequencedDatabase H :=
  match x db with
  | .ok _ db' => db'
  | .error _ db' => db'

end SequencedDatabase

/-- A session on a database: its open savepoints, innermost first, and the states captured in it. -/
structure AllocationSession (H : Type) [Ord H] where
  db : SequencedDatabase H
  saved : List (SequencedDatabase H) := []
  captured : List AllocationState := []

section Runs

variable {H : Type} [Ord H] [TransOrd H] [LawfulEqOrd H] [DecidableEq H] (x : Externals H)

/-- One step of a session. -/
inductive AllocationStep : AllocationSession H → AllocationSession H → Prop
  | allocate (s : AllocationSession H) (q : Sequence) (count : Nat) :
      AllocationStep s
        { s with db := SequencedDatabase.leaves (SequencedDatabase.allocateIdRange q count) s.db }
  | intern (s : AllocationSession H) (table : DictionaryTable) (name : Text) :
      AllocationStep s
        { s with db := SequencedDatabase.leaves (SequencedDatabase.internName table name) s.db }
  | commit (s : AllocationSession H) (commit expectedHead : H) (secondParent : Option H)
      {layer : LayerBuilder} (hbuilt : layer.Built) :
      AllocationStep s { s with db := { s.db with
        toDatabase := s.db.toDatabase.savepoint
          (s.db.toDatabase.commitChange x commit expectedHead secondParent layer) } }
  | createCheckpoint (s : AllocationSession H) (commit : H) :
      AllocationStep s { s with db := { s.db with
        toDatabase := s.db.toDatabase.savepoint (s.db.toDatabase.createCheckpoint x commit) } }
  | deleteCheckpoint (s : AllocationSession H) (commit : H) :
      AllocationStep s { s with db := { s.db with
        toDatabase := s.db.toDatabase.deleteCheckpoint commit } }
  | collect (s : AllocationSession H) {rest : Database H}
      (hpart : Database.Part s.db.toDatabase rest) :
      AllocationStep s { s with db := { s.db with toDatabase := rest } }
  | capture (s : AllocationSession H) :
      AllocationStep s { s with captured := s.db.captureAllocationState :: s.captured }
  | restore (s : AllocationSession H) {state : AllocationState} (hstate : state ∈ s.captured) :
      AllocationStep s { s with db := s.db.restoreAllocationState state }
  | begin (s : AllocationSession H) : AllocationStep s { s with saved := s.db :: s.saved }
  | release {s : AllocationSession H} {db : SequencedDatabase H}
      {saved : List (SequencedDatabase H)} (h : s.saved = db :: saved) :
      AllocationStep s { s with saved }
  | rollback {s : AllocationSession H} {db : SequencedDatabase H}
      {saved : List (SequencedDatabase H)} (h : s.saved = db :: saved) :
      AllocationStep s { s with db, saved }

/-- The sessions that a run from a new database reaches. -/
inductive AllocationReaches : AllocationSession H → Prop
  | root {db : Database H} {root : H} (h : Database.initializeRoot x {} root = .ok db) :
      AllocationReaches { db := { toDatabase := db } }
  | step {s t : AllocationSession H} (h : AllocationReaches s) (hstep : AllocationStep x s t) :
      AllocationReaches t

/-- An identifier that a layer mentions, by the sequence it belongs to. -/
inductive LayerBuilder.Uses (l : LayerBuilder) : Sequence → Int → Prop
  | node {id : NodeId} {op : DeltaOp} (h : l.nodes[id]? = some op) : Uses l .node id
  | labelled {row : NodeId × LabelId} {op : DeltaOp} (h : l.labels[row]? = some op) :
      Uses l .node row.1
  | label {row : NodeId × LabelId} {op : DeltaOp} (h : l.labels[row]? = some op) :
      Uses l .label row.2
  | relationship {id : RelationshipId} {delta : RelationshipDelta}
      (h : l.relationships[id]? = some delta) : Uses l .relationship delta.record.id
  | source {id : RelationshipId} {delta : RelationshipDelta}
      (h : l.relationships[id]? = some delta) : Uses l .node delta.record.source
  | target {id : RelationshipId} {delta : RelationshipDelta}
      (h : l.relationships[id]? = some delta) : Uses l .node delta.record.target
  | relationshipType {id : RelationshipId} {delta : RelationshipDelta}
      (h : l.relationships[id]? = some delta) : Uses l .relationshipType delta.record.typeId
  | nodeProperty {owner : Int} {key : PropertyKeyId} {delta : PropertyDelta}
      (h : l.properties[((.node, owner, key) : PropertySlot)]? = some delta) : Uses l .node owner
  | relationshipProperty {owner : Int} {key : PropertyKeyId} {delta : PropertyDelta}
      (h : l.properties[((.relationship, owner, key) : PropertySlot)]? = some delta) :
      Uses l .relationship owner
  | propertyKey {slot : PropertySlot} {delta : PropertyDelta}
      (h : l.properties[slot]? = some delta) : Uses l .propertyKey slot.2.2

/-- An identifier that a commit has: one that a layer of its lineage mentions, or its layer. -/
inductive Database.Uses (db : Database H) (commit : H) : Sequence → Int → Prop
  | layer {row : CommitRow H} (h : db.commits[commit]? = some row) :
      Uses db commit .layer row.layerId
  | fact {ls : List LayerBuilder} {l : LayerBuilder} {q : Sequence} {id : Int}
      (hls : Lineage x db commit ls) (hl : l ∈ ls) (h : l.Uses q id) : Uses db commit q id

end Runs

/-! ## 3. What is handed out -/

variable {d : Dictionary} {id : Int} {q : Sequence} {name : Text}

theorem Dictionary.find_none : d.find name = none ↔ name ∉ d.rows.map Prod.snd := by
  unfold Dictionary.find
  rw [Option.map_eq_none_iff, List.find?_eq_none, List.mem_map]
  constructor
  · intro h hmem
    obtain ⟨row, hrow, hname⟩ := hmem
    exact h row hrow (by simpa using hname)
  · intro h row hrow hname
    exact h ⟨row, hrow, by simpa using hname⟩

theorem Dictionary.mem_insert {d d' : Dictionary} {id : Int}
    (h : d.insert id name = some d') {row : Int × Text} :
    row ∈ d'.rows ↔ row ∈ d.rows ∨ row = (id, name) := by
  unfold Dictionary.insert at h
  split at h
  · cases h
    rw [List.mem_append, List.mem_singleton]
  · cases h

theorem Dictionary.insert_fresh (hid : id ∉ d.rows.map Prod.fst)
    (hname : name ∉ d.rows.map Prod.snd) : ∃ d', d.insert id name = some d' := by
  unfold Dictionary.insert
  rw [dif_pos ⟨hid, hname⟩]
  exact ⟨_, rfl⟩

namespace SequencedDatabase

variable {H : Type} [Ord H] {db db' : SequencedDatabase H}

@[simp] theorem nextId_setNextId (db : SequencedDatabase H) (q r : Sequence) (next : Int) :
    (db.setNextId q next).nextId r = if r = q then next else db.nextId r := by
  cases q <;> cases r <;> rfl

@[simp] theorem dictionary_setNextId (db : SequencedDatabase H) (q : Sequence) (next : Int)
    (table : DictionaryTable) : (db.setNextId q next).dictionary table = db.dictionary table := by
  cases q <;> cases table <;> rfl

@[simp] theorem nextId_setDictionary (db : SequencedDatabase H) (table : DictionaryTable)
    (d : Dictionary) (q : Sequence) : (db.setDictionary table d).nextId q = db.nextId q := by
  cases table <;> cases q <;> rfl

@[simp] theorem dictionary_setDictionary (db : SequencedDatabase H) (table other : DictionaryTable)
    (d : Dictionary) :
    (db.setDictionary table d).dictionary other =
      if other = table then d else db.dictionary other := by
  cases table <;> cases other <;> rfl

theorem check_ok {α : Type} {condition : Bool} {message : String}
    {f : Unit → EStateM StorageError (SequencedDatabase H) α} {a : α} :
    (lifted (corruptWhen condition message) >>= f) db = .ok a db' ↔
      condition = false ∧ f () db = .ok a db' := by
  cases condition
  · simp only [true_and]
    rfl
  · refine ⟨fun h => ?_, fun h => ?_⟩
    · cases h
    · cases h.1

theorem check_error {α : Type} {condition : Bool} {message : String}
    {f : Unit → EStateM StorageError (SequencedDatabase H) α} {e : StorageError}
    (h : (lifted (corruptWhen condition message) >>= f) db = .error e db') :
    db' = db ∨ f () db = .error e db' := by
  cases condition
  · exact .inr h
  · cases h
    exact .inl rfl

/-- **A range is handed out exactly while it fits.** -/
theorem allocateIdRange_ok {count : Nat} {first : Int} :
    allocateIdRange q count db = .ok first db' ↔ 0 < count ∧ 0 < db.nextId q ∧
      db.nextId q + count < 2 ^ 63 ∧ first = db.nextId q ∧
      db' = db.setNextId q (db.nextId q + count) := by
  unfold allocateIdRange
  rw [check_ok]
  show _ ∧ (lifted (corruptWhen (decide (2 ^ 63 ≤ count)) _) >>= fun _ =>
    lifted (corruptWhen (decide (2 ^ 63 ≤ db.nextId q + count)) (exhausted q)) >>= fun _ =>
      lifted (corruptWhen (decide (db.nextId q ≤ 0 ∨ db.nextId q + count ≤ db.nextId q))
        (exhausted q)) >>= fun _ => writing _ >>= fun _ => pure (db.nextId q)) db = _ ↔ _
  rw [check_ok, check_ok, check_ok]
  have hlast : ((writing fun db' : SequencedDatabase H => db'.setNextId q (db.nextId q + count)) >>=
      fun _ => (pure (db.nextId q) : EStateM StorageError (SequencedDatabase H) Int)) db =
        .ok first db' ↔ first = db.nextId q ∧ db' = db.setNextId q (db.nextId q + count) := by
    rw [tx_bind_ok]
    simp only [writing_ok, tx_pure_ok]
    constructor
    · intro h
      obtain ⟨_, t, hwrite, hfirst, hdb⟩ := h
      exact ⟨hfirst.symm, hdb ▸ hwrite.symm⟩
    · intro h
      exact ⟨(), _, rfl, h.1.symm, h.2.symm⟩
  rw [hlast]
  simp only [beq_eq_false_iff_ne, decide_eq_false_iff_not]
  constructor
  · intro h
    obtain ⟨hcount, hlarge, hover, hnext, hfirst, hdb⟩ := h
    exact ⟨by omega, by omega, by omega, hfirst, hdb⟩
  · intro h
    obtain ⟨hcount, hpos, hfits, hfirst, hdb⟩ := h
    exact ⟨by omega, by omega, by omega, by omega, hfirst, hdb⟩

/-- **An allocation that fails leaves the database as it was.** -/
theorem allocateIdRange_error {count : Nat} {e : StorageError}
    (h : allocateIdRange q count db = .error e db') : db' = db := by
  unfold allocateIdRange at h
  rcases check_error h with h | h
  · exact h
  rcases check_error h with h | h
  · exact h
  rcases check_error h with h | h
  · exact h
  rcases check_error h with h | h
  · exact h
  -- the update and the result do not fail
  rcases tx_bind_err.mp h with h | ⟨_, t, _, h⟩
  · exact (writing_err.mp h).elim
  · exact (tx_pure_err.mp h).elim

theorem allocateIdRange_spec (db : SequencedDatabase H) (q : Sequence) (count : Nat) :
    match allocateIdRange q count db with
    | .ok first db' => 0 < count ∧ 0 < first ∧ first + count < 2 ^ 63 ∧ first = db.nextId q ∧
        db' = db.setNextId q (first + count)
    | .error _ db' => db' = db ∧ (count = 0 ∨ db.nextId q ≤ 0 ∨ 2 ^ 63 ≤ db.nextId q + count) := by
  split
  · rename_i first db' h
    obtain ⟨hcount, hpos, hfits, hfirst, hdb⟩ := allocateIdRange_ok.mp h
    rw [hfirst]
    exact ⟨hcount, hpos, hfits, rfl, hdb⟩
  · rename_i e db' h
    refine ⟨allocateIdRange_error h, ?_⟩
    by_contra hnone
    have hok : allocateIdRange q count db =
        .ok (db.nextId q) (db.setNextId q (db.nextId q + count)) :=
      allocateIdRange_ok.mpr ⟨by omega, by omega, by omega, rfl, rfl⟩
    rw [hok] at h
    cases h

theorem internName_spec (db : SequencedDatabase H) (table : DictionaryTable) (name : Text)
    (hnamed : ∀ row ∈ (db.dictionary table).rows, row.1 < db.nextId table.sequence) :
    match internName table name db with
    | .ok id db' => ((db.dictionary table).find name = some id ∧ db' = db) ∨
        ((db.dictionary table).find name = none ∧ id = db.nextId table.sequence ∧ 0 < id ∧
          id + 1 < 2 ^ 63 ∧ ∃ d, (db.dictionary table).insert id name = some d ∧
            db' = (db.setNextId table.sequence (id + 1)).setDictionary table d)
    | .error _ db' => db' = db ∧ (db.dictionary table).find name = none ∧
        (db.nextId table.sequence ≤ 0 ∨ 2 ^ 63 ≤ db.nextId table.sequence + 1) := by
  have hread : internName table name db = (match (db.dictionary table).find name with
      | some id => pure id
      | none => allocateId table.sequence >>= fun id =>
          insertName table id name >>= fun _ => pure id : EStateM _ _ _) db := rfl
  rw [hread]
  cases hfind : (db.dictionary table).find name with
  | some id => exact .inl ⟨rfl, rfl⟩
  | none =>
    have hname := Dictionary.find_none.mp hfind
    -- the row of a fresh id goes in
    have hinsert : ∀ {id : Int} {t : SequencedDatabase H}, id = db.nextId table.sequence →
        t = db.setNextId table.sequence (id + 1) → ∃ d,
          (db.dictionary table).insert id name = some d ∧
            insertName table id name t = .ok () (t.setDictionary table d) := by
      intro id t hid ht
      have hfresh : id ∉ (db.dictionary table).rows.map Prod.fst := by
        intro hmem
        obtain ⟨row, hrow, heq⟩ := List.mem_map.mp hmem
        have hlt := hnamed row hrow
        omega
      obtain ⟨d, hd⟩ := Dictionary.insert_fresh hfresh hname
      refine ⟨d, hd, ?_⟩
      unfold insertName
      refine tx_bind_ok.mpr ⟨d, t, reading_ok.mpr ⟨?_, rfl⟩, rfl⟩
      rw [ht, dictionary_setNextId, hd]
    simp only
    split
    · rename_i id db' h
      obtain ⟨first, t, halloc, h⟩ := tx_bind_ok.mp h
      obtain ⟨_, hpos, hfits, hfirst, ht⟩ := allocateIdRange_ok.mp halloc
      have ht' : t = db.setNextId table.sequence (first + 1) := by
        rw [ht, hfirst]
        rfl
      obtain ⟨d, hd, hrun⟩ := hinsert hfirst ht'
      obtain ⟨_, u, hrun', h⟩ := tx_bind_ok.mp h
      rw [hrun] at hrun'
      cases hrun'
      obtain ⟨hid, hdb⟩ := tx_pure_ok.mp h
      rw [← hid]
      refine .inr ⟨trivial, hfirst, by omega, by omega, d, hd, ?_⟩
      rw [← hdb, ht']
    · rename_i e db' h
      rcases tx_bind_err.mp h with h | ⟨first, t, halloc, h⟩
      · have hspec := allocateIdRange_spec db table.sequence 1
        have hrun : allocateIdRange table.sequence 1 db = .error e db' := h
        rw [hrun] at hspec
        refine ⟨hspec.1, trivial, ?_⟩
        omega
      · obtain ⟨_, _, _, hfirst, ht⟩ := allocateIdRange_ok.mp halloc
        have ht' : t = db.setNextId table.sequence (first + 1) := by
          rw [ht, hfirst]
          rfl
        obtain ⟨d, _, hrun⟩ := hinsert hfirst ht'
        rcases tx_bind_err.mp h with h | ⟨_, u, _, h⟩
        · rw [hrun] at h
          cases h
        · exact (tx_pure_err.mp h).elim

end SequencedDatabase

/-! ## 4. Every identifier is below its counter -/

/-- The rows of a captured dictionary. -/
def AllocationState.dictionary (state : AllocationState) : DictionaryTable → List (Int × Text)
  | .labels => state.labels
  | .relationshipTypes => state.relationshipTypes
  | .propertyKeys => state.propertyKeys

/-- A captured state names only ids below the counters captured with them. -/
def AllocationState.Closed (state : AllocationState) : Prop :=
  ∀ table row, row ∈ state.dictionary table → 0 < row.1 ∧
    ∃ next, (table.sequence.kind, next) ∈ state.sequences ∧ row.1 < next

/-- The names of the dictionaries are below their counters. -/
def SequencedDatabase.Named {H : Type} [Ord H] (db : SequencedDatabase H) : Prop :=
  ∀ table row, row ∈ (db.dictionary table).rows → 0 < row.1 ∧ row.1 < db.nextId table.sequence

/-- Counters and dictionaries have grown, and nothing else has changed. -/
structure SequencedDatabase.Raised {H : Type} [Ord H] (db db' : SequencedDatabase H) : Prop where
  nextId : ∀ q, db.nextId q ≤ db'.nextId q
  names : ∀ table row, row ∈ (db.dictionary table).rows → row ∈ (db'.dictionary table).rows
  layers : db'.layers.layers = db.layers.layers
  commits : db'.commits = db.commits
  checkpoints : db'.checkpoints = db.checkpoints

section Numbered

variable {H : Type} [Ord H] [TransOrd H] {x : Externals H}

/-- **Every identifier is below its counter**: of stored layers, of commits, of dictionaries. -/
structure SequencedDatabase.Numbered (x : Externals H) (db : SequencedDatabase H) : Prop where
  sound : Database.Sound x db.toDatabase
  layers : ∀ (id : Int) l, db.toDatabase.Stores x id l → l.Allocated db.ids []
  positive : ∀ q, 0 < db.nextId q
  named : db.Named

namespace SequencedDatabase

variable {db db' db'' : SequencedDatabase H}

omit [TransOrd H] in
theorem raised_refl (db : SequencedDatabase H) : Raised db db :=
  ⟨fun _ => Int.le_refl _, fun _ _ h => h, rfl, rfl, rfl⟩

omit [TransOrd H] in
theorem Raised.trans (h : Raised db db') (h' : Raised db' db'') : Raised db db'' :=
  ⟨fun q => Int.le_trans (h.nextId q) (h'.nextId q),
    fun table row hrow => h'.names table row (h.names table row hrow), h'.layers.trans h.layers,
    h'.commits.trans h.commits, h'.checkpoints.trans h.checkpoints⟩

omit [TransOrd H] in
theorem Raised.grows (h : Raised db db') : Database.Grows db.ids db'.ids := by
  have hnames : ∀ (table : DictionaryTable) (id : Int),
      ((db.dictionary table).nameOf id).isSome → ((db'.dictionary table).nameOf id).isSome := by
    intro table id hsome
    obtain ⟨name, hname⟩ := Option.isSome_iff_exists.mp hsome
    have hrow := h.names table (id, name) (Dictionary.nameOf_iff.mp hname)
    exact Option.isSome_iff_exists.mpr ⟨name, Dictionary.nameOf_iff.mpr hrow⟩
  exact ⟨h.nextId .node, h.nextId .relationship, hnames .labels, hnames .relationshipTypes,
    hnames .propertyKeys⟩

omit [TransOrd H] in
theorem Raised.stores (h : Raised db db') {l : LayerBuilder} :
    db'.toDatabase.Stores x id l ↔ db.toDatabase.Stores x id l := by
  unfold Database.Stores
  rw [h.layers]

theorem Raised.extends (h : Raised db db') : Database.Extends db.toDatabase db'.toDatabase :=
  ⟨fun _ _ hrow => h.commits ▸ hrow, fun _ _ he => h.layers ▸ he⟩

/-- **What grows counters and dictionaries keeps identifiers below their counters.** -/
theorem Numbered.raised (h : Numbered x db) (hr : Raised db db') (hnamed : db'.Named) :
    Numbered x db' := by
  have htuples : db'.toDatabase.tuples = db.toDatabase.tuples := by
    unfold Database.tuples
    rw [hr.layers]
  refine ⟨⟨⟨fun id content rows hentry => ?_, fun id id' content rows rows' hentry hentry' => ?_⟩,
    fun c row hrow => ?_, fun c cp hcp => ?_, ?_⟩, fun id l hstores => ?_, fun q => ?_, hnamed⟩
  · rw [hr.layers] at hentry
    obtain ⟨hlt, hrest⟩ := h.sound.layers.written id content rows hentry
    exact ⟨Int.lt_of_lt_of_le hlt (hr.nextId .layer), hrest⟩
  · rw [hr.layers] at hentry hentry'
    exact h.sound.layers.unique id id' content rows rows' hentry hentry'
  · rw [hr.commits] at hrow
    obtain ⟨ls, hls, hconsistent, hknown⟩ := h.sound.commits c row hrow
    refine ⟨ls, hr.extends.lineage hls, hconsistent, Database.known_mono hknown hr.grows ?_⟩
    rw [htuples]
    exact fun _ hrecord => hrecord
  · rw [hr.checkpoints] at hcp
    obtain ⟨ls, hls, hshows⟩ := h.sound.checkpoints c cp hcp
    exact ⟨ls, hr.extends.lineage hls, hshows⟩
  · rw [htuples]
    exact h.sound.stable
  · exact (h.layers id l (hr.stores.mp hstores)).mono hr.grows
      fun _ _ _ record hrecord => absurd hrecord List.not_mem_nil
  · exact Int.lt_of_lt_of_le (h.positive q) (hr.nextId q)

/-! ## 5. Allocations, names, restored states -/

omit [TransOrd H] in
theorem raised_setNextId {next : Int} (h : db.nextId q ≤ next) :
    Raised db (db.setNextId q next) := by
  refine ⟨fun r => ?_, fun table row hrow => ?_, ?_, ?_, ?_⟩
  · rw [nextId_setNextId]
    split
    · rename_i heq
      rw [heq]
      exact h
    · exact Int.le_refl _
  · rw [dictionary_setNextId]
    exact hrow
  · cases q <;> rfl
  · cases q <;> rfl
  · cases q <;> rfl

omit [TransOrd H] in
theorem raised_setDictionary {table : DictionaryTable}
    (h : ∀ row ∈ (db.dictionary table).rows, row ∈ d.rows) :
    Raised db (db.setDictionary table d) := by
  refine ⟨fun q => ?_, fun other row hrow => ?_, ?_, ?_, ?_⟩
  · rw [nextId_setDictionary]
  · rw [dictionary_setDictionary]
    split
    · rename_i heq
      rw [heq] at hrow
      exact h row hrow
    · exact hrow
  · cases table <;> rfl
  · cases table <;> rfl
  · cases table <;> rfl

omit [TransOrd H] in
theorem Named.raised (h : db.Named) (hr : Raised db db')
    (hsame : ∀ table, db'.dictionary table = db.dictionary table) : db'.Named := by
  intro table row hrow
  rw [hsame] at hrow
  exact ⟨(h table row hrow).1, Int.lt_of_lt_of_le (h table row hrow).2 (hr.nextId _)⟩

/-- **So does an allocation.** -/
theorem Numbered.allocate (h : Numbered x db) (q : Sequence) (count : Nat) :
    Numbered x (leaves (allocateIdRange q count) db) := by
  have hspec := allocateIdRange_spec db q count
  unfold leaves
  split
  · rename_i first db' hrun
    rw [hrun] at hspec
    obtain ⟨_, _, _, hfirst, hdb⟩ := hspec
    have hr : Raised db db' := by
      rw [hdb]
      exact raised_setNextId (by omega)
    refine h.raised hr (h.named.raised hr fun table => ?_)
    rw [hdb, dictionary_setNextId]
  · rename_i e db' hrun
    rw [hrun] at hspec
    rw [hspec.1]
    exact h

/-- **So does a name.** -/
theorem Numbered.intern (h : Numbered x db) (table : DictionaryTable) (name : Text) :
    Numbered x (leaves (internName table name) db) := by
  have hspec := internName_spec db table name fun row hrow => (h.named table row hrow).2
  unfold leaves
  split
  · rename_i id db' hrun
    rw [hrun] at hspec
    rcases hspec with ⟨_, hdb⟩ | ⟨_, hid, hpos, _, d, hd, hdb⟩
    · rw [hdb]
      exact h
    · have hnext : Raised db (db.setNextId table.sequence (id + 1)) := raised_setNextId (by omega)
      have hrow : Raised (db.setNextId table.sequence (id + 1)) db' := by
        rw [hdb]
        refine raised_setDictionary fun row hrow => ?_
        rw [dictionary_setNextId] at hrow
        exact (Dictionary.mem_insert hd).mpr (.inl hrow)
      refine h.raised (hnext.trans hrow) fun other row hmem => ?_
      rw [hdb, dictionary_setDictionary, dictionary_setNextId] at hmem
      have hold : row ∈ (db.dictionary other).rows →
          0 < row.1 ∧ row.1 < db'.nextId other.sequence :=
        fun hmem => ⟨(h.named other row hmem).1, Int.lt_of_lt_of_le (h.named other row hmem).2
          ((hnext.trans hrow).nextId _)⟩
      split at hmem
      · rename_i heq
        rcases (Dictionary.mem_insert hd).mp hmem with hmem | hmem
        · exact hold (heq ▸ hmem)
        · rw [hmem, hdb, heq, nextId_setDictionary, nextId_setNextId, if_pos rfl]
          exact ⟨hpos, by omega⟩
      · exact hold hmem
  · rename_i e db' hrun
    rw [hrun] at hspec
    rw [hspec.1]
    exact h

theorem mem_restoreDictionary (row : Int × Text) : ∀ (values : List (Int × Text)) (d : Dictionary),
    (row ∈ d.rows → row ∈ (restoreDictionary values d).rows) ∧
      (row ∈ (restoreDictionary values d).rows → row ∈ d.rows ∨ row ∈ values)
  | [], d => ⟨fun h => h, .inl⟩
  | value :: values, d => by
      have hrest := mem_restoreDictionary row values ((d.insert value.1 value.2).getD d)
      have hstep : restoreDictionary (value :: values) d =
          restoreDictionary values ((d.insert value.1 value.2).getD d) := rfl
      rw [hstep]
      cases hinsert : d.insert value.1 value.2 with
      | none =>
        rw [hinsert] at hrest
        refine ⟨hrest.1, fun h => ?_⟩
        rcases hrest.2 h with h | h
        · exact .inl h
        · exact .inr (.tail _ h)
      | some d' =>
        rw [hinsert] at hrest
        refine ⟨fun h => hrest.1 ((Dictionary.mem_insert hinsert).mpr (.inl h)), fun h => ?_⟩
        rcases hrest.2 h with h | h
        · rcases (Dictionary.mem_insert hinsert).mp h with h | h
          · exact .inl h
          · exact .inr (h ▸ (.head _))
        · exact .inr (.tail _ h)

theorem find_kind (q : Sequence) : Sequence.all.find? (fun r => r.kind == q.kind) = some q := by
  cases q <;> rfl

omit [TransOrd H] in
/-- **Restored counters only go up.** -/
theorem raised_restoreSequences : ∀ (sequences : List (Int × Int)) (db : SequencedDatabase H),
    Raised db (sequences.foldl restoreSequence db) ∧
      (∀ table, (sequences.foldl restoreSequence db).dictionary table = db.dictionary table) ∧
      ∀ q next, (q.kind, next) ∈ sequences → next ≤ (sequences.foldl restoreSequence db).nextId q
  | [], db => ⟨raised_refl db, fun _ => rfl, fun _ _ h => absurd h List.not_mem_nil⟩
  | row :: sequences, db => by
      obtain ⟨hraised, hsame, hnext⟩ := raised_restoreSequences sequences (restoreSequence db row)
      have hone : Raised db (restoreSequence db row) ∧
          (∀ table, (restoreSequence db row).dictionary table = db.dictionary table) ∧
          ∀ q next, (q.kind, next) = row → next ≤ (restoreSequence db row).nextId q := by
        unfold restoreSequence
        split
        · rename_i q hfind
          refine ⟨raised_setNextId (Int.le_max_left _ _), fun table => dictionary_setNextId _ _ _ _,
            fun r next heq => ?_⟩
          have hq : r = q := by
            rw [← heq, find_kind] at hfind
            exact Option.some.inj hfind
          rw [hq, ← heq, nextId_setNextId, if_pos rfl]
          exact Int.le_max_right _ _
        · rename_i hfind
          refine ⟨raised_refl db, fun _ => rfl, fun q next heq => ?_⟩
          rw [← heq, find_kind] at hfind
          cases hfind
      refine ⟨hone.1.trans hraised, fun table => (hsame table).trans (hone.2.1 table),
        fun q next hmem => ?_⟩
      rcases List.mem_cons.mp hmem with heq | hmem
      · exact Int.le_trans (hone.2.2 q next heq) (hraised.nextId q)
      · exact hnext q next hmem

omit [TransOrd H] in
theorem closed_capture (h : db.Named) : db.captureAllocationState.Closed := by
  have hrows : ∀ table, db.captureAllocationState.dictionary table =
      readDictionary (db.dictionary table) := fun table => by cases table <;> rfl
  intro table row hrow
  rw [hrows] at hrow
  unfold readDictionary at hrow
  rw [List.mem_mergeSort] at hrow
  obtain ⟨hpos, hlt⟩ := h table row hrow
  refine ⟨hpos, db.nextId table.sequence, List.mem_map.mpr ⟨table.sequence, ?_, rfl⟩, hlt⟩
  cases table <;> decide

/-- **So does a restored state.** -/
theorem Numbered.restore (h : Numbered x db) {state : AllocationState} (hstate : state.Closed) :
    Numbered x (db.restoreAllocationState state) := by
  let db₁ := db.setDictionary .labels (restoreDictionary state.labels db.ids.labels)
  let db₂ := db₁.setDictionary .relationshipTypes
    (restoreDictionary state.relationshipTypes db₁.ids.relationshipTypes)
  let db₃ := db₂.setDictionary .propertyKeys
    (restoreDictionary state.propertyKeys db₂.ids.propertyKeys)
  have hr₁ : Raised db db₁ :=
    raised_setDictionary fun row => (mem_restoreDictionary row state.labels _).1
  have hr₂ : Raised db₁ db₂ :=
    raised_setDictionary fun row => (mem_restoreDictionary row state.relationshipTypes _).1
  have hr₃ : Raised db₂ db₃ :=
    raised_setDictionary fun row => (mem_restoreDictionary row state.propertyKeys _).1
  have hrows : ∀ table, db₃.dictionary table =
      restoreDictionary (state.dictionary table) (db.dictionary table) := by
    intro table
    cases table <;> rfl
  obtain ⟨hraised, hsame, hnext⟩ := raised_restoreSequences state.sequences db₃
  have hall : Raised db (db.restoreAllocationState state) :=
    ((hr₁.trans hr₂).trans hr₃).trans hraised
  refine h.raised hall fun table row hrow => ?_
  have hrow : row ∈ (restoreDictionary (state.dictionary table) (db.dictionary table)).rows := by
    rw [← hrows, ← hsame]
    exact hrow
  rcases (mem_restoreDictionary row _ _).2 hrow with hold | hnew
  · exact ⟨(h.named table row hold).1,
      Int.lt_of_lt_of_le (h.named table row hold).2 (hall.nextId _)⟩
  · obtain ⟨hpos, next, hmem, hlt⟩ := hstate table row hnew
    exact ⟨hpos, Int.lt_of_lt_of_le hlt (hnext _ next hmem)⟩

/-! ## 6. Commits, checkpoints, collections -/

variable [LawfulEqOrd H] [DecidableEq H]

omit [TransOrd H] [LawfulEqOrd H] in
theorem persistLayer_stored {db : Database H} (hs : LayerTable.Safe x.hash x.real db.layers)
    {layer : LayerBuilder} (hbuilt : layer.Built) {persisted : Int × H} {layers : LayerTable H}
    (h : LayerTable.persistLayer x.hash x.real db.layers layer = .ok (persisted, layers)) :
    db.layers.nextId ≤ layers.nextId ∧ ∀ {next : Database H}, next.layers = layers →
      ∀ (id : Int) l, next.Stores x id l → db.Stores x id l ∨ l = layer.canonical := by
  obtain ⟨rows, built, bytes, _, hbuilt', _, hrows, hcanonical, _, hnew⟩ :=
    LayerTable.persistLayer_changes x.hash x.real hs hbuilt h
  refine ⟨?_, fun {next} hlayers other l hstores => ?_⟩
  · obtain ⟨_, _, _, ⟨_, _, hsame⟩ | ⟨_, _, _, _, hone⟩⟩ :=
      LayerTable.persistLayer_ok x.hash x.real h
    · rw [hsame]
    · rw [hone]
      show db.layers.nextId ≤ db.layers.nextId + 1
      omega
  · obtain ⟨rows', built', bytes', hentry, hbuilt'', hbytes', hrows', hl⟩ := hstores
    rw [hlayers] at hentry
    rcases hnew other _ hentry with hold | hsame
    · exact .inl ⟨rows', built', bytes', hold, hbuilt'', hbytes', hrows', hl⟩
    · -- the same rows are read as the same layer
      have hload := LayerRows.loadLayer_persisted hbuilt'' hrows'
      have hsame : rows' = rows := hsame
      rw [hsame, LayerRows.loadLayer_persisted hbuilt' hrows] at hload
      refine .inr ?_
      rw [← hl, ← Except.ok.inj hload, hcanonical]

theorem commitChange_stored {db db' : Database H} (hs : Database.Sound x db)
    {commit expectedHead : H} {secondParent : Option H} {layer : LayerBuilder}
    (hbuilt : layer.Built)
    (h : db.commitChange x commit expectedHead secondParent layer = .ok db') :
    db'.ids = db.ids ∧ db.layers.nextId ≤ db'.layers.nextId ∧ layer.Allocated db.ids db.tuples ∧
      ∀ (id : Int) l, db'.Stores x id l → db.Stores x id l ∨ l = layer.canonical := by
  obtain ⟨hparent, h⟩ := check_bind_eq_ok.mp h
  obtain ⟨_, h⟩ := check_bind_eq_ok.mp h
  obtain ⟨hvalidate, h⟩ := check_bind_eq_ok.mp h
  obtain ⟨⟨persisted, layers⟩, hpersist, h⟩ := bind_eq_ok.mp h
  obtain ⟨hnext, hstored⟩ := persistLayer_stored hs.layers hbuilt hpersist
  have hallocated : layer.Allocated db.ids db.tuples := by
    obtain ⟨_, _, _, _, hempty | haccepted⟩ :=
      Database.accepted_of_validated hs hbuilt hparent hvalidate
    · rw [hempty]
      exact allocated_empty
    · exact haccepted.allocated
  have hdb : db'.ids = db.ids ∧ db'.layers = layers := by
    have hinsert : Database.insertCommit x { db with layers } commit
        ⟨some expectedHead, secondParent, persisted.1⟩ = .ok db' := h
    rcases Database.insertCommit_ok hinsert with ⟨_, hdb⟩ | hdb
    · rw [hdb]
      exact ⟨rfl, rfl⟩
    · rw [hdb]
      exact ⟨rfl, rfl⟩
  exact ⟨hdb.1, hdb.2 ▸ hnext, hallocated, hstored hdb.2⟩

omit [LawfulEqOrd H] [DecidableEq H] in
theorem Numbered.replaced (h : Numbered x db) {next : Database H} (hsound : Database.Sound x next)
    (hids : next.ids = db.ids) (hnext : db.layers.nextId ≤ next.layers.nextId)
    (hstores : ∀ (id : Int) l, next.Stores x id l → l.Allocated db.ids []) :
    Numbered x { db with toDatabase := next } := by
  have hcounters : ∀ q, db.nextId q ≤
      ({ db with toDatabase := next } : SequencedDatabase H).nextId q := by
    intro q
    cases q with
    | node =>
      show db.ids.nextNode ≤ next.ids.nextNode
      rw [hids]
    | relationship =>
      show db.ids.nextRelationship ≤ next.ids.nextRelationship
      rw [hids]
    | label => exact Int.le_refl _
    | relationshipType => exact Int.le_refl _
    | propertyKey => exact Int.le_refl _
    | layer => exact hnext
  have hnames : ∀ table, ({ db with toDatabase := next } : SequencedDatabase H).dictionary table =
      db.dictionary table := by
    intro table
    cases table with
    | labels => exact congrArg Identities.labels hids
    | relationshipTypes => exact congrArg Identities.relationshipTypes hids
    | propertyKeys => exact congrArg Identities.propertyKeys hids
  refine ⟨hsound, fun id l hl => ?_, fun q => Int.lt_of_lt_of_le (h.positive q) (hcounters q),
    fun table row hrow => ?_⟩
  · show l.Allocated next.ids []
    rw [hids]
    exact hstores id l hl
  · rw [hnames] at hrow
    exact ⟨(h.named table row hrow).1, Int.lt_of_lt_of_le (h.named table row hrow).2 (hcounters _)⟩

/-- **So does a commit.** -/
theorem Numbered.commit (h : Numbered x db) (commit expectedHead : H) (secondParent : Option H)
    {layer : LayerBuilder} (hbuilt : layer.Built) :
    Numbered x { db with
      toDatabase := db.toDatabase.savepoint
        (db.toDatabase.commitChange x commit expectedHead secondParent layer) } := by
  cases hresult : db.toDatabase.commitChange x commit expectedHead secondParent layer with
  | error error => exact h
  | ok next =>
    obtain ⟨hids, hnext, hallocated, hstored⟩ := commitChange_stored h.sound hbuilt hresult
    refine h.replaced (Database.sound_commit h.sound hbuilt hresult) hids hnext
      fun id l hstores => ?_
    rcases hstored id l hstores with hold | hnew
    · exact h.layers id l hold
    · rw [hnew]
      exact hallocated.canonical.mono (Database.grows_refl _)
        fun _ _ _ record hrecord => absurd hrecord List.not_mem_nil

theorem Numbered.createCheckpoint (h : Numbered x db) (commit : H) :
    Numbered x { db with
      toDatabase := db.toDatabase.savepoint (db.toDatabase.createCheckpoint x commit) } := by
  have hsound := Database.sound_step h.sound (.createCheckpoint db.toDatabase commit)
  cases hresult : db.toDatabase.createCheckpoint x commit with
  | error error => exact h
  | ok next =>
    rw [hresult] at hsound
    have hsame : next.ids = db.ids ∧ next.layers = db.layers := by
      rcases Database.createCheckpoint_ok hresult with heq | ⟨cp, row, heq, _⟩
      · rw [heq]
        exact ⟨rfl, rfl⟩
      · rw [heq]
        exact ⟨rfl, rfl⟩
    refine h.replaced hsound hsame.1 (Int.le_of_eq (congrArg LayerTable.nextId hsame.2).symm)
      fun id l hstores => h.layers id l ?_
    unfold Database.Stores at hstores ⊢
    rw [← hsame.2]
    exact hstores

theorem Numbered.deleteCheckpoint (h : Numbered x db) (commit : H) :
    Numbered x { db with toDatabase := db.toDatabase.deleteCheckpoint commit } :=
  h.replaced (Database.sound_step h.sound (.deleteCheckpoint db.toDatabase commit)) rfl
    (Int.le_refl _) h.layers

omit [LawfulEqOrd H] [DecidableEq H] in
/-- **So does a part of the database.** -/
theorem Numbered.collect (h : Numbered x db) {rest : Database H}
    (hpart : Database.Part db.toDatabase rest) : Numbered x { db with toDatabase := rest } := by
  refine h.replaced (Database.sound_part h.sound hpart) hpart.ids
    (Int.le_of_eq hpart.nextId.symm) fun id l hstores => h.layers id l ?_
  obtain ⟨rows, built, bytes, hentry, hrest⟩ := hstores
  exact ⟨rows, built, bytes, hpart.layers id _ hentry, hrest⟩

theorem numbered_root {db : Database H} {root : H}
    (h : Database.initializeRoot x {} root = .ok db) :
    Numbered x ({ toDatabase := db } : SequencedDatabase H) := by
  have hsound := Database.sound_root h
  obtain ⟨⟨persisted, layers⟩, hpersist, h⟩ := bind_eq_ok.mp h
  have hsafe : LayerTable.Safe x.hash x.real ({} : Database H).layers :=
    LayerTable.tableSafe x.hash x.real (.refl _)
  obtain ⟨hnext, hstored⟩ := @persistLayer_stored H _ x _ {} hsafe _
    Database.layerBuilder_empty_built _ _ hpersist
  cases h
  refine ⟨hsound, fun id l hstores => ?_, fun q => ?_, fun table row hrow => ?_⟩
  · rcases hstored rfl id l hstores with hold | hnew
    · obtain ⟨rows, _, _, hentry, _⟩ := hold
      simp at hentry
    · rw [hnew]
      exact allocated_empty.canonical
  · cases q with
    | layer => exact Int.lt_of_lt_of_le Int.one_pos hnext
    | _ => exact Int.one_pos
  · cases table <;> cases hrow

/-! ## 7. Sessions -/

/-- What every step of a session keeps. -/
structure SessionNumbered (x : Externals H) (s : AllocationSession H) : Prop where
  db : Numbered x s.db
  saved : ∀ db ∈ s.saved, Numbered x db
  captured : ∀ state ∈ s.captured, state.Closed

theorem sessionNumbered_step {s t : AllocationSession H} (hs : SessionNumbered x s)
    (hstep : AllocationStep x s t) : SessionNumbered x t := by
  cases hstep with
  | allocate q count => exact ⟨hs.db.allocate q count, hs.saved, hs.captured⟩
  | intern table name => exact ⟨hs.db.intern table name, hs.saved, hs.captured⟩
  | commit commit expectedHead secondParent hbuilt =>
    exact ⟨hs.db.commit commit expectedHead secondParent hbuilt, hs.saved, hs.captured⟩
  | createCheckpoint commit => exact ⟨hs.db.createCheckpoint commit, hs.saved, hs.captured⟩
  | deleteCheckpoint commit => exact ⟨hs.db.deleteCheckpoint commit, hs.saved, hs.captured⟩
  | collect hpart => exact ⟨hs.db.collect hpart, hs.saved, hs.captured⟩
  | capture =>
    refine ⟨hs.db, hs.saved, fun state hstate => ?_⟩
    rcases List.mem_cons.mp hstate with heq | hold
    · rw [heq]
      exact closed_capture hs.db.named
    · exact hs.captured state hold
  | restore hstate => exact ⟨hs.db.restore (hs.captured _ hstate), hs.saved, hs.captured⟩
  | begin =>
    refine ⟨hs.db, fun db hdb => ?_, hs.captured⟩
    rcases List.mem_cons.mp hdb with heq | hold
    · rw [heq]
      exact hs.db
    · exact hs.saved db hold
  | release hsaved =>
    exact ⟨hs.db, fun db hdb => hs.saved db (hsaved ▸ .tail _ hdb), hs.captured⟩
  | rollback hsaved =>
    exact ⟨hs.saved _ (hsaved ▸ (.head _)),
      fun db hdb => hs.saved db (hsaved ▸ .tail _ hdb), hs.captured⟩

/-- **In every session identifiers are below their counters.** -/
theorem sessionNumbered_reaches {s : AllocationSession H} (h : AllocationReaches x s) :
    SessionNumbered x s := by
  induction h with
  | root h =>
    exact ⟨numbered_root h, fun _ hdb => absurd hdb List.not_mem_nil,
      fun _ hstate => absurd hstate List.not_mem_nil⟩
  | step _ hstep ih => exact sessionNumbered_step ih hstep

omit [LawfulEqOrd H] [DecidableEq H] in
theorem Numbered.uses_layer (h : Numbered x db) {l : LayerBuilder} (hl : l.Allocated db.ids [])
    (huse : l.Uses q id) : 0 < id ∧ id < db.nextId q := by
  have hname : ∀ (table : DictionaryTable) {id : Int}, ((db.dictionary table).nameOf id).isSome →
      0 < id ∧ id < db.nextId table.sequence := by
    intro table id hsome
    obtain ⟨name, hname⟩ := Option.isSome_iff_exists.mp hsome
    exact h.named table (id, name) (Dictionary.nameOf_iff.mp hname)
  cases huse with
  | node huse => exact hl.nodes _ _ huse
  | labelled huse => exact (hl.labels _ _ huse).1
  | label huse => exact hname .labels (hl.labels _ _ huse).2
  | relationship huse => exact (hl.relationships _ _ huse).1
  | source huse => exact (hl.relationships _ _ huse).2.1
  | target huse => exact (hl.relationships _ _ huse).2.2.1
  | relationshipType huse =>
    exact hname .relationshipTypes (hl.relationships _ _ huse).2.2.2.1
  | nodeProperty huse => exact (hl.properties _ _ huse).2
  | relationshipProperty huse => exact (hl.properties _ _ huse).2
  | propertyKey huse => exact hname .propertyKeys (hl.properties _ _ huse).1

omit [LawfulEqOrd H] [DecidableEq H] in
theorem Numbered.uses (h : Numbered x db) {c : H} (huse : db.toDatabase.Uses x c q id) :
    id < db.nextId q := by
  cases huse with
  | @layer row hrow =>
    obtain ⟨ls, hls, _⟩ := h.sound.commits c row hrow
    have hstored : ∃ e : H × LayerRows, db.layers.layers[row.layerId]? = some e := by
      cases hls with
      | root hrow' _ hstores =>
        rw [hrow] at hrow'
        cases hrow'
        obtain ⟨_, _, _, hentry, _⟩ := hstores
        exact ⟨_, hentry⟩
      | child hrow' _ hstores _ =>
        rw [hrow] at hrow'
        cases hrow'
        obtain ⟨_, _, _, hentry, _⟩ := hstores
        exact ⟨_, hentry⟩
    obtain ⟨e, hentry⟩ := hstored
    exact (h.sound.layers.written row.layerId e.1 e.2 hentry).1
  | fact hls hl huse =>
    obtain ⟨layerId, hstores⟩ := hls.stores _ hl
    exact (h.uses_layer (h.layers layerId _ hstores) huse).2

end SequencedDatabase

variable [LawfulEqOrd H] [DecidableEq H]

/-- **No identifier is handed out twice**: in every session, after any allocations, commits,
    rollbacks and restored states, each identifier of each commit is below its counter, so that
    neither an allocation nor a new name gets one of them; and a counter that has no range left
    fails, without a change. -/
theorem ids_never_reused {s : AllocationSession H} (h : AllocationReaches x s) :
    (∀ (c : H) row, s.db.commits[c]? = some row → ∃ ls, Database.Lineage x s.db.toDatabase c ls) ∧
    (∀ (c : H) q id, s.db.toDatabase.Uses x c q id → id < s.db.nextId q) ∧
    (∀ q count, match SequencedDatabase.allocateIdRange q count s.db with
      | .ok first db' => 0 < count ∧ 0 < first ∧ first + count < 2 ^ 63 ∧
          db'.nextId q = first + count ∧
          ∀ (c : H) id, s.db.toDatabase.Uses x c q id → id < first
      | .error _ db' => db' = s.db ∧ (count = 0 ∨ 2 ^ 63 ≤ s.db.nextId q + count)) ∧
    ∀ table name, match SequencedDatabase.internName table name s.db with
      | .ok id db' => (db'.dictionary table).find name = some id ∧
          ((s.db.dictionary table).find name = some id ∨
            ((s.db.dictionary table).find name = none ∧ 0 < id ∧ id + 1 < 2 ^ 63 ∧
              db'.nextId table.sequence = id + 1 ∧
              ∀ (c : H) id', s.db.toDatabase.Uses x c table.sequence id' → id' < id))
      | .error _ db' => db' = s.db ∧ 2 ^ 63 ≤ s.db.nextId table.sequence + 1 := by
  have hdb := (SequencedDatabase.sessionNumbered_reaches h).db
  refine ⟨fun c row hrow => ?_, fun c q id huse => hdb.uses huse, fun q count => ?_,
    fun table name => ?_⟩
  · obtain ⟨ls, hls, _⟩ := hdb.sound.commits c row hrow
    exact ⟨ls, hls⟩
  · have hspec := SequencedDatabase.allocateIdRange_spec s.db q count
    split
    · rename_i first db' hrun
      rw [hrun] at hspec
      obtain ⟨hcount, hpos, hfits, hfirst, hnext⟩ := hspec
      refine ⟨hcount, hpos, hfits, ?_, fun c id huse => hfirst ▸ hdb.uses huse⟩
      rw [hnext, SequencedDatabase.nextId_setNextId, if_pos rfl]
    · rename_i e db' hrun
      rw [hrun] at hspec
      have hpos := hdb.positive q
      exact ⟨hspec.1, by omega⟩
  · have hspec := SequencedDatabase.internName_spec s.db table name
      fun row hrow => (hdb.named table row hrow).2
    split
    · rename_i id db' hrun
      rw [hrun] at hspec
      rcases hspec with ⟨hfind, hsame⟩ | ⟨hfind, hid, hpos, hfits, d, hd, hnext⟩
      · rw [hsame]
        exact ⟨hfind, .inl hfind⟩
      · refine ⟨?_, .inr ⟨hfind, hpos, hfits, ?_, fun c id' huse => hid ▸ hdb.uses huse⟩⟩
        · rw [hnext, SequencedDatabase.dictionary_setDictionary, if_pos rfl, Dictionary.find_iff]
          exact (Dictionary.mem_insert hd).mpr (.inr rfl)
        · rw [hnext, SequencedDatabase.nextId_setDictionary, SequencedDatabase.nextId_setNextId,
            if_pos rfl]
    · rename_i e db' hrun
      rw [hrun] at hspec
      have hpos := hdb.positive table.sequence
      exact ⟨hspec.1, by omega⟩

end Numbered

/-! ## 8. A restored allocation -/

/-- A session that allocates node 1 in a savepoint, rolls it back, restores what was captured inside
    it, and commits the node. -/
def restoredNode : AllocationSession Int :=
  let root : SequencedDatabase Int :=
    { toDatabase := ({} : Database Int).savepoint (Database.initializeRoot Database.digits {} 0) }
  let allocated := SequencedDatabase.leaves (SequencedDatabase.allocateIdRange .node 1) root
  let state := allocated.captureAllocationState
  let restored := root.restoreAllocationState state
  { db := { restored with
      toDatabase := restored.toDatabase.savepoint
        (restored.toDatabase.commitChange Database.digits 1 0 none (.ofNode 1 true)) }
    captured := [state] }

theorem restoredNode_reached : AllocationReaches Database.digits restoredNode := by
  have hinit : Database.initializeRoot Database.digits {} (0 : Int) =
      .ok (({} : Database Int).savepoint (Database.initializeRoot Database.digits {} 0)) := rfl
  have hbuilt : (LayerBuilder.ofNode 1 true).Built :=
    newNode_built (by decide) (show LayerBuilder.supply [.addNode 1] = .ok _ from rfl)
  have hroot := AllocationReaches.root hinit
  have hbegun := AllocationReaches.step hroot (.begin _)
  have hallocated := AllocationReaches.step hbegun (.allocate _ .node 1)
  have hcaptured := AllocationReaches.step hallocated (.capture _)
  have hback := AllocationReaches.step hcaptured (.rollback rfl)
  have hrestored := AllocationReaches.step hback (.restore _ (.head _))
  exact .step hrestored (.commit _ 1 0 none hbuilt)

/-- The commit has node 1, and the next node is node 2. -/
theorem ids_never_reused_restored : restoredNode.db.commits.contains 1 = true ∧
    (∃ db', SequencedDatabase.allocateIdRange .node 1 restoredNode.db = .ok 2 db') ∧
    ∀ (c : Int) q id, restoredNode.db.toDatabase.Uses Database.digits c q id →
      id < restoredNode.db.nextId q :=
  ⟨rfl, ⟨_, rfl⟩, (ids_never_reused restoredNode_reached).2.1⟩

end Lithograph.Storage
