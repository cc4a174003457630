/-
  File:      Lithograph/Version/Repository.lean
  Subject:   All tables of a database file together, and the writes on them: identifiers, layers,
             schemas, commits, checkpoints, references, merge sessions and garbage collection
             (`storage/commit.rs`, `storage/schema.rs`, `storage/version/*.rs`).

  A repository is a database that snapshots are loaded from and a store that references point into.
  A call is a list of writes under one savepoint.

  * `linked_installed`: a commit keeps the two sides together.
-/
import Lithograph.Storage.Collect
import Lithograph.Version.Session

namespace Lithograph.Version

open Std Library Storage

/-! ## 1. The tables -/

/-- What a repository takes from elsewhere: the content hash, its text, a REAL column, and the hash
    of a commit (`commit_hash`). -/
structure Hashing extends Externals HashId where
  commitHash : CommitRecord → HashId

/-- `PersistedCommitRow`: the columns of `_lithograph_commits` beside the id. -/
structure PersistedCommitRow where
  parent1 : Option HashId
  parent2 : Option HashId
  layerId : Int
  schemaHash : HashId
  metadata : CommitMetadata
  deriving DecidableEq

/-- The tables of a database file. -/
structure Repository where
  ids : Identities := {}
  layers : LayerTable HashId := {}
  schemas : ExtTreeMap HashId Bytes := ∅
  commits : ExtTreeMap HashId PersistedCommitRow := ∅
  checkpoints : ExtTreeMap HashId CheckpointRows := ∅
  commitData : ExtTreeMap HashId Text := ∅
  branches : ExtTreeMap Text HashId := ∅
  tags : ExtTreeMap Text HashId := ∅
  sessions : ExtTreeMap Text MergeSessionRecord := ∅
  resolutions : ExtTreeMap (Text × HashId) Text := ∅

/-- A storage function on the tables. -/
abbrev RepositoryTx (α : Type) := EStateM StorageError Repository α

/-- The parents of a commit, first parent first. -/
def PersistedCommitRow.parents (row : PersistedCommitRow) : List HashId :=
  [row.parent1, row.parent2].filterMap id

/-- The columns a snapshot reads. -/
def PersistedCommitRow.lineageRow (row : PersistedCommitRow) : Storage.CommitRow HashId :=
  ⟨row.parent1, row.parent2, row.layerId⟩

variable {c schemaHash commit : HashId}

namespace Repository

/-- What snapshots are loaded from. -/
def database (r : Repository) : Database HashId where
  ids := r.ids
  layers := r.layers
  commits := r.commits.map fun _ row => row.lineageRow
  checkpoints := r.checkpoints

/-- The hash a layer is stored under. -/
def layerHash (r : Repository) (id : Int) : HashId :=
  (r.layers.layers[id]?.map Prod.fst).getD []

def record (r : Repository) (row : PersistedCommitRow) : CommitRecord :=
  ⟨row.parent1, row.parent2, r.layerHash row.layerId, row.schemaHash, row.metadata⟩

/-- What references point into. -/
def store (r : Repository) : Store where
  commits := r.commits.map fun _ row => r.record row
  branches := r.branches
  tags := r.tags
  sessions := r.sessions
  resolutions := r.resolutions

/-- The repository with the references and sessions of a store. -/
def withStore (r : Repository) (s : Store) : Repository :=
  { r with branches := s.branches, tags := s.tags, sessions := s.sessions,
           resolutions := s.resolutions }

/-- A write of references or sessions. -/
def onStore {α : Type} (f : StorageTx α) : RepositoryTx α := fun r =>
  match f r.store with
  | .ok a s => .ok a (r.withStore s)
  | .error e s => .error e (r.withStore s)

/-! ## 2. Layers, schemas and checkpoints -/

section Writes

variable (x : Hashing)

/-- Identifiers are allocated and names interned. -/
structure Allocation where
  run : Identities → Identities
  grows : ∀ ids, Database.Grows ids (run ids)

/-- A layer as the functions of `LayerBuilder` make it. -/
abbrev PreparedLayer := { l : LayerBuilder // l.Built }

def persistLayer (layer : LayerBuilder) : RepositoryTx (Int × HashId) := fun r =>
  match LayerTable.persistLayer x.hash x.real r.layers layer with
  | .ok (persisted, layers) => .ok persisted { r with layers }
  | .error e => .error e r

/-- `persist_schema_blob`: `INSERT OR IGNORE`, then the object that is there must be the one that
    was meant. -/
def persistSchemaBlob (canonicalBlob : Bytes) : RepositoryTx HashId := fun r =>
  let schemaHash := x.hash canonicalBlob
  match r.schemas[schemaHash]? with
  | none => .ok schemaHash { r with schemas := r.schemas.insert schemaHash canonicalBlob }
  | some persisted =>
    if persisted = canonicalBlob then .ok schemaHash r
    else .error (.corrupt ("Schema " ++ x.toHex schemaHash ++
      " does not match its content-addressed bytes")) r

def requireSchema (schemaHash : HashId) (r : Repository) : StorageResult Unit :=
  if r.schemas.contains schemaHash then .ok ()
  else .error (.notFound ("Schema " ++ x.toHex schemaHash))

def schemaHashForCommit (commit : HashId) (r : Repository) : StorageResult HashId :=
  match r.commits[commit]? with
  | some row => .ok row.schemaHash
  | none => .error (.notFound ("Commit " ++ x.toHex commit))

/-- `create_checkpoint`, which writes the tables of checkpoints only. -/
def createCheckpoint (commit : HashId) : RepositoryTx Unit := fun r =>
  match r.database.createCheckpoint x.toExternals commit with
  | .ok db => .ok () { r with checkpoints := db.checkpoints }
  | .error e => .error e r

def deleteCheckpoint (commit : HashId) : RepositoryTx Unit :=
  writing fun r => { r with checkpoints := r.checkpoints.erase commit }

/-- `set_commit_data`, less the check that the text is JSON. -/
def setCommitData (commit : HashId) (dataJson : Text) : RepositoryTx Unit := do
  reading fun r => Version.requireCommit commit r.store
  writing fun r => { r with commitData := r.commitData.insert commit dataJson }

def clearCommitData (commit : HashId) : RepositoryTx Unit := do
  reading fun r => Version.requireCommit commit r.store
  writing fun r => { r with commitData := r.commitData.erase commit }

/-! ## 3. Commits -/

/-- What the calls of `CommitRead::check` answer, one after the other. -/
abbrev Checks := Nat → StorageResult Unit

/-- `insert_commit` and `verify_commit_row`. -/
def insertCommit (id : HashId) (row : PersistedCommitRow) : RepositoryTx Unit := fun r =>
  match r.commits[id]? with
  | none => .ok () { r with commits := r.commits.insert id row }
  | some actual =>
    if actual = row then .ok () r
    else .error (.corrupt ("Commit " ++ x.toHex id ++
      " does not match its content-addressed fields")) r

/-- What a commit is made of, beside its schema. -/
structure CommitInput where
  branch : Text
  expectedHead : HashId
  secondParent : Option HashId
  layer : PreparedLayer
  metadata : CommitMetadata
  check : Checks

/-- `commit_change_inner`; `check` is also called inside the validation and the persistence of the
    layer. -/
def commitChangeInner (input : CommitInput) (schemaHash : HashId) : RepositoryTx HashId := do
  lifted (input.check 1)
  let head ← reading fun r => branchHead input.branch r.store
  if head ≠ input.expectedHead then lifted (.error .branchHeadMoved)
  else do
    reading fun r => Version.requireSecondParent input.secondParent r.store
    reading (requireSchema x schemaHash)
    reading fun r =>
      r.database.validateCandidateLayer x.toExternals input.expectedHead input.layer.1
    let (layerId, layerHash) ← persistLayer x input.layer.1
    let commit := x.commitHash
      ⟨some input.expectedHead, input.secondParent, layerHash, schemaHash, input.metadata⟩
    lifted (input.check 2)
    insertCommit x commit
      ⟨some input.expectedHead, input.secondParent, layerId, schemaHash, input.metadata⟩
    lifted (input.check 3)
    onStore (compareAndMoveBranch input.branch input.expectedHead commit)
    lifted (input.check 4)
    pure commit

/-- `commit_layer_observed`: the schema of the expected head. -/
def commitLayer (input : CommitInput) : RepositoryTx HashId := do
  lifted (input.check 0)
  let schemaHash ← reading (schemaHashForCommit x input.expectedHead)
  commitChangeInner x input schemaHash

/-- `commit_layer_with_schema_observed`. -/
def commitLayerWithSchema (input : CommitInput) (schemaHash : HashId) : RepositoryTx HashId := do
  lifted (input.check 0)
  reading (requireSchema x schemaHash)
  commitChangeInner x input schemaHash

/-! ## 4. Garbage collection -/

structure GcCounters where
  commits : Nat := 0
  layers : Nat := 0
  schemas : Nat := 0
  checkpoints : Nat := 0
  commitData : Nat := 0
  deriving DecidableEq

/-- The rows a `DELETE` of one key takes. -/
def deleted {α β : Type} [Ord α] (m : ExtTreeMap α β) (a : α) [TransOrd α] : Nat :=
  if m.contains a then 1 else 0

/-- One pass of `delete_unreachable_commits`, with `delete_commit_auxiliary`. -/
def deleteCommit (state : GcCounters × Repository) (commit : HashId) : GcCounters × Repository :=
  let (counters, r) := state
  ({ counters with
      checkpoints := counters.checkpoints + deleted r.checkpoints commit
      commitData := counters.commitData + deleted r.commitData commit
      commits := counters.commits + deleted r.commits commit },
   { r with
      commitData := r.commitData.erase commit
      checkpoints := r.checkpoints.erase commit
      commits := r.commits.erase commit })

/-- `EXISTS(SELECT 1 FROM _lithograph_commits WHERE layer_id = …)`. -/
def layerReferenced (r : Repository) (id : Int) : Bool :=
  r.commits.toList.any fun e => e.2.layerId = id

def orphanLayerIds (r : Repository) : List Int :=
  r.layers.layers.keys.filter fun id => !r.layerReferenced id

/-- One pass of `delete_orphan_layers`: the deltas and the row of the layer. -/
def deleteLayer (state : GcCounters × Repository) (id : Int) : GcCounters × Repository :=
  let (counters, r) := state
  ({ counters with layers := counters.layers + deleted r.layers.layers id },
   { r with layers := { r.layers with layers := r.layers.layers.erase id } })

def schemaReferenced (r : Repository) (hash : HashId) : Bool :=
  r.commits.toList.any fun e => e.2.schemaHash = hash

/-- `DELETE FROM _lithograph_schema_objects WHERE NOT EXISTS(…)`. -/
def deleteOrphanSchemas (state : GcCounters × Repository) : GcCounters × Repository :=
  let (counters, r) := state
  let schemas := r.schemas.filter fun hash _ => r.schemaReferenced hash
  ({ counters with schemas := counters.schemas + (r.schemas.size - schemas.size) },
   { r with schemas })

/-- What `collect_garbage` does with the commits it found. -/
def sweep (unreachable : List HashId) (r : Repository) : GcCounters × Repository :=
  let (counters, r) := unreachable.foldl deleteCommit ({}, r)
  deleteOrphanSchemas (r.orphanLayerIds.foldl deleteLayer (counters, r))

def collectGarbage : RepositoryTx GcCounters := fun r =>
  match unreachableCommits r.store with
  | .error e => .error e r
  | .ok [] => .ok {} r
  | .ok unreachable => .ok (r.sweep unreachable).1 (r.sweep unreachable).2

/-! ## 5. Calls -/

/-- The writes a call is made of. -/
inductive Op where
  | allocate (allocation : Allocation)
  | persistSchema (canonicalBlob : Bytes)
  | commit (input : CommitInput)
  | commitWithSchema (input : CommitInput) (schemaHash : HashId)
  | branchCreate (name : Text) (source : HashId)
  | branchDelete (active name : Text)
  | branchMove (name : Text) (expected : Option HashId) (target : HashId)
  | tagCreate (name : Text) (target : HashId)
  | tagMove (name : Text) (target : HashId)
  | tagDelete (name : Text)
  | sessionCreate (id targetBranch : Text) (ours theirs : HashId) (expectedHead : Option HashId)
      (createdAt : Int)
  | sessionResolve (id : Text) (expectedRevision : Int) (replacements : ExtTreeMap HashId Text)
      (changed : Bool)
  | sessionDelete (id : Text) (expectedRevision : Int)
  | dataSet (commit : HashId) (dataJson : Text)
  | dataClear (commit : HashId)
  | checkpointCreate (commit : HashId)
  | checkpointDelete (commit : HashId)
  | gc

/-- What a write returns, as far as it names a commit. -/
inductive Outcome where
  | committed (commit : HashId)
  | collected (counters : GcCounters)
  | done

/-- One write. -/
def exec : Op → RepositoryTx Outcome
  | .allocate allocation => do
    writing fun r => { r with ids := allocation.run r.ids }
    pure .done
  | .persistSchema canonicalBlob => do
    let _ ← persistSchemaBlob x canonicalBlob
    pure .done
  | .commit input => do
    let commit ← commitLayer x input
    pure (.committed commit)
  | .commitWithSchema input schemaHash => do
    let commit ← commitLayerWithSchema x input schemaHash
    pure (.committed commit)
  | .branchCreate name source => do
    onStore (createBranchRef name source)
    pure .done
  | .branchDelete active name => do
    let _ ← onStore (deleteBranchRef active name)
    pure .done
  | .branchMove name expected target => do
    let _ ← onStore (moveBranchRef name expected target)
    pure .done
  | .tagCreate name target => do
    onStore (createTag name target)
    pure .done
  | .tagMove name target => do
    let _ ← onStore (moveTag name target)
    pure .done
  | .tagDelete name => do
    let _ ← onStore (deleteTag name)
    pure .done
  | .sessionCreate id targetBranch ours theirs expectedHead createdAt => do
    let _ ← onStore (createMergeSession id targetBranch ours theirs expectedHead createdAt)
    pure .done
  | .sessionResolve id expectedRevision replacements changed => do
    let _ ← onStore (updateMergeResolutions id expectedRevision replacements changed)
    pure .done
  | .sessionDelete id expectedRevision => do
    let _ ← onStore (deleteMergeSession id expectedRevision)
    pure .done
  | .dataSet commit dataJson => do
    setCommitData commit dataJson
    pure .done
  | .dataClear commit => do
    clearCommitData commit
    pure .done
  | .checkpointCreate commit => do
    createCheckpoint x commit
    pure .done
  | .checkpointDelete commit => do
    deleteCheckpoint commit
    pure .done
  | .gc => do
    let counters ← collectGarbage
    pure (.collected counters)

/-- The writes of one call, one after the other. -/
def execAll : List Op → RepositoryTx (List Outcome)
  | [] => pure []
  | op :: ops => do
    let outcome ← exec x op
    let outcomes ← execAll ops
    pure (outcome :: outcomes)

/-- `initialize_root`, on a database without commits. -/
def initializeRoot (schemaBlob : Bytes) (rootMetadata : CommitMetadata) :
    StorageResult Repository := do
  let (persisted, layers) ← LayerTable.persistLayer x.hash x.real {} {}
  let schemaHash := x.hash schemaBlob
  let commit := x.commitHash ⟨none, none, persisted.2, schemaHash, rootMetadata⟩
  pure { layers
         schemas := (∅ : ExtTreeMap HashId Bytes).insert schemaHash schemaBlob
         commits := (∅ : ExtTreeMap HashId PersistedCommitRow).insert commit
           ⟨none, none, persisted.1, schemaHash, rootMetadata⟩
         branches := (∅ : ExtTreeMap Text HashId).insert "main".toList commit }

/-- What one call returned. -/
abbrev Reply := Except StorageError (List Outcome)

/-- One call: its writes under a savepoint, and what it returned. -/
def Step (r : Repository) (call : List Op × Reply) (r' : Repository) : Prop :=
  savepoint (execAll x call.1) r = (call.2, r')

/-- The repositories that runs from a fresh database reach. -/
inductive Reaches (r : Repository) : Prop
  | intro {schemaBlob : Bytes} {rootMetadata : CommitMetadata} {fresh : Repository}
      {calls : List (List Op × Reply)} (hfresh : initializeRoot x schemaBlob rootMetadata = .ok fresh)
      (hrun : Trace (Step x) fresh calls r) : Reaches r

end Writes

/-! ## 6. The two sides -/

section Sides

variable {r : Repository}

theorem database_commits (r : Repository) (c : HashId) :
    r.database.commits[c]? = r.commits[c]?.map PersistedCommitRow.lineageRow := by
  show (r.commits.map _)[c]? = _
  exact ExtTreeMap.getElem?_map

theorem store_commits (r : Repository) (c : HashId) :
    r.store.commits[c]? = r.commits[c]?.map r.record := by
  show (r.commits.map _)[c]? = _
  exact ExtTreeMap.getElem?_map

theorem database_row {row : Storage.CommitRow HashId} (h : r.database.commits[c]? = some row) :
    ∃ full, r.commits[c]? = some full ∧ full.lineageRow = row := by
  rw [database_commits] at h
  exact Option.map_eq_some_iff.mp h

theorem store_row {row : CommitRecord} (h : r.store.commits[c]? = some row) :
    ∃ full, r.commits[c]? = some full ∧ r.record full = row := by
  rw [store_commits] at h
  exact Option.map_eq_some_iff.mp h

theorem database_row_of {full : PersistedCommitRow} (h : r.commits[c]? = some full) :
    r.database.commits[c]? = some full.lineageRow := by
  rw [database_commits, h]
  rfl

theorem store_row_of {full : PersistedCommitRow} (h : r.commits[c]? = some full) :
    r.store.commits[c]? = some (r.record full) := by
  rw [store_commits, h]
  rfl

theorem stored_iff : Stored r.store.commits c ↔ ∃ full, r.commits[c]? = some full := by
  constructor
  · rintro ⟨row, hrow⟩
    obtain ⟨full, hfull, _⟩ := store_row hrow
    exact ⟨full, hfull⟩
  · rintro ⟨full, hfull⟩
    exact ⟨_, store_row_of hfull⟩

theorem onStore_ok {α : Type} {f : StorageTx α} {r' : Repository} {a : α} :
    onStore f r = .ok a r' ↔ ∃ s, f r.store = .ok a s ∧ r' = r.withStore s := by
  unfold onStore
  cases f r.store with
  | ok b s =>
    constructor
    · intro h
      cases h
      exact ⟨s, rfl, rfl⟩
    · rintro ⟨s', h, rfl⟩
      cases h
      rfl
  | error e s =>
    constructor
    · intro h
      cases h
    · rintro ⟨s', h, _⟩
      cases h

theorem store_withStore {s : Store} (h : s.commits = r.store.commits) :
    (r.withStore s).store = s := by
  obtain ⟨commits, branches, tags, sessions, resolutions⟩ := s
  cases h
  rfl

end Sides

/-! ## 7. What a commit leaves behind -/

section Commits

variable {x : Hashing} {r r' : Repository}

theorem persistLayer_ok {layer : LayerBuilder} {persisted : Int × HashId}
    (h : persistLayer x layer r = .ok persisted r') :
    ∃ layers, LayerTable.persistLayer x.hash x.real r.layers layer = .ok (persisted, layers) ∧
      r' = { r with layers } := by
  unfold persistLayer at h
  split at h
  · rename_i persisted' layers hpersist
    cases h
    exact ⟨layers, hpersist, rfl⟩
  · cases h

theorem requireSchema_ok {u : Unit} (h : requireSchema x schemaHash r = .ok u) :
    ∃ blob, r.schemas[schemaHash]? = some blob := by
  unfold requireSchema at h
  split at h
  · rename_i hcontains
    rw [← ExtTreeMap.isSome_getElem?_eq_contains] at hcontains
    exact Option.isSome_iff_exists.mp hcontains
  · cases h

theorem insertCommit_ok {id : HashId} {row : PersistedCommitRow} {u : Unit}
    (h : insertCommit x id row r = .ok u r') :
    (r.commits[id]? = none ∧ r' = { r with commits := r.commits.insert id row }) ∨
      (r.commits[id]? = some row ∧ r' = r) := by
  unfold insertCommit at h
  split at h
  · rename_i hfresh
    cases h
    exact .inl ⟨hfresh, rfl⟩
  · rename_i actual hactual
    split at h
    · rename_i hsame
      cases h
      rw [hsame] at hactual
      exact .inr ⟨hactual, rfl⟩
    · cases h

/-- The row of the commit, once its layer is stored. -/
def CommitInput.row (input : CommitInput) (schemaHash : HashId) (layerId : Int) :
    PersistedCommitRow :=
  ⟨some input.expectedHead, input.secondParent, layerId, schemaHash, input.metadata⟩

/-- **What a commit leaves behind**: the branch moved to it, the layer, and a row that names both;
    every other row is as it was. -/
structure Installed (x : Hashing) (input : CommitInput) (schemaHash : HashId)
    (r r' : Repository) (commit : HashId) : Prop where
  head : r.branches[input.branch]? = some input.expectedHead
  parent2 : ∀ parent, input.secondParent = some parent → Stored r.store.commits parent
  schema : ∃ blob, r.schemas[schemaHash]? = some blob
  validated : r.database.validateCandidateLayer x.toExternals input.expectedHead input.layer.1 =
    .ok ()
  written : ∃ layerId layerHash layers,
    LayerTable.persistLayer x.hash x.real r.layers input.layer.1 =
      .ok ((layerId, layerHash), layers) ∧
    commit = x.commitHash
      ⟨some input.expectedHead, input.secondParent, layerHash, schemaHash, input.metadata⟩ ∧
    ((r.commits[commit]? = none ∧
        r' = { r with
          layers := layers
          commits := r.commits.insert commit (input.row schemaHash layerId)
          branches := r.branches.insert input.branch commit }) ∨
      (r.commits[commit]? = some (input.row schemaHash layerId) ∧
        r' = { r with
          layers := layers
          branches := r.branches.insert input.branch commit }))

variable {input : CommitInput}

/-- **The spec of `commit_change_inner`.** -/
theorem commitChangeInner_ok (h : commitChangeInner x input schemaHash r = .ok commit r') :
    Installed x input schemaHash r r' commit := by
  unfold commitChangeInner at h
  rw [tx_bind_ok] at h
  obtain ⟨_, _, hcheck, h⟩ := h
  obtain ⟨_, rfl⟩ := lifted_ok.mp hcheck
  rw [tx_bind_ok] at h
  obtain ⟨head, _, hread, h⟩ := h
  obtain ⟨hhead, rfl⟩ := reading_ok.mp hread
  split at h
  · cases (lifted_ok.mp h).1
  · rename_i hsame
    rw [not_not.mp hsame] at hhead
    simp only [tx_bind_ok, reading_ok, lifted_ok, tx_pure_ok, onStore_ok] at h
    obtain ⟨_, _, ⟨hsecond, rfl⟩, _, _, ⟨hschema, rfl⟩, _, _, ⟨hvalid, rfl⟩, ⟨layerId, layerHash⟩, _,
      hpersist, _, _, ⟨_, rfl⟩, _, _, hinsert, _, _, ⟨_, rfl⟩, _, _, ⟨s, hmove, rfl⟩, _, _, ⟨_, rfl⟩,
      rfl, rfl⟩ := h
    obtain ⟨layers, hlayers, rfl⟩ := persistLayer_ok hpersist
    obtain ⟨_, rfl⟩ := compareAndMoveBranch_ok hmove
    refine ⟨branchHead_ok.mp hhead, fun parent hparent => ?_, requireSchema_ok hschema, hvalid,
      layerId, layerHash, layers, hlayers, rfl, ?_⟩
    · rw [hparent] at hsecond
      exact requireCommit_ok hsecond
    · rcases insertCommit_ok hinsert with ⟨hfresh, rfl⟩ | ⟨hold, rfl⟩
      · exact .inl ⟨hfresh, rfl⟩
      · exact .inr ⟨hold, rfl⟩

theorem commitLayer_ok (h : commitLayer x input r = .ok commit r') :
    ∃ row, r.commits[input.expectedHead]? = some row ∧
      Installed x input row.schemaHash r r' commit := by
  unfold commitLayer at h
  simp only [tx_bind_ok, lifted_ok, reading_ok] at h
  obtain ⟨_, _, ⟨_, rfl⟩, schemaHash, _, ⟨hschema, rfl⟩, h⟩ := h
  unfold schemaHashForCommit at hschema
  split at hschema
  · rename_i row hrow
    cases hschema
    exact ⟨row, hrow, commitChangeInner_ok h⟩
  · cases hschema

theorem commitLayerWithSchema_ok (h : commitLayerWithSchema x input schemaHash r = .ok commit r') :
    Installed x input schemaHash r r' commit := by
  unfold commitLayerWithSchema at h
  simp only [tx_bind_ok, lifted_ok, reading_ok] at h
  obtain ⟨_, _, ⟨_, rfl⟩, _, _, ⟨_, rfl⟩, h⟩ := h
  exact commitChangeInner_ok h

theorem Installed.tables (h : Installed x input schemaHash r r' commit) :
    ∃ layerId layerHash layers,
      LayerTable.persistLayer x.hash x.real r.layers input.layer.1 =
        .ok ((layerId, layerHash), layers) ∧
      commit = x.commitHash
        ⟨some input.expectedHead, input.secondParent, layerHash, schemaHash, input.metadata⟩ ∧
      r' = { r with layers := layers, commits := r'.commits,
                    branches := r.branches.insert input.branch commit } ∧
      ∀ c, r'.commits[c]? =
        if c = commit then some (input.row schemaHash layerId) else r.commits[c]? := by
  obtain ⟨layerId, layerHash, layers, hlayers, hcommit, hcase⟩ := h.written
  refine ⟨layerId, layerHash, layers, hlayers, hcommit, ?_⟩
  rcases hcase with ⟨_, rfl⟩ | ⟨hold, rfl⟩
  · exact ⟨rfl, fun c => lookup_insert r.commits commit c _⟩
  · refine ⟨rfl, fun c => ?_⟩
    split
    · rename_i hc
      rw [hc]
      exact hold
    · rfl

theorem Installed.keeps (h : Installed x input schemaHash r r' commit)
    {row : PersistedCommitRow} (hrow : r.commits[c]? = some row) : r'.commits[c]? = some row := by
  obtain ⟨layerId, layerHash, layers, _, _, hcase⟩ := h.written
  rcases hcase with ⟨hfresh, rfl⟩ | ⟨_, rfl⟩
  · have hne : c ≠ commit := by
      intro hc
      rw [hc, hfresh] at hrow
      cases hrow
    show (r.commits.insert commit _)[c]? = _
    rw [lookup_insert, if_neg hne]
    exact hrow
  · exact hrow

/-- **A commit, seen by snapshots.** -/
theorem database_commitChange {schemaHash commit : HashId}
    (h : Installed x input schemaHash r r' commit)
    (hhead : ∃ row, r.commits[input.expectedHead]? = some row) :
    r.database.commitChange x.toExternals commit input.expectedHead input.secondParent
      input.layer.1 = .ok r'.database := by
  have hrequire : ∀ c, (∃ row, r.commits[c]? = some row) →
      r.database.requireCommit x.toExternals c = .ok () := by
    rintro c ⟨row, hrow⟩
    unfold Database.requireCommit
    rw [← ExtTreeMap.isSome_getElem?_eq_contains, database_row_of hrow]
    rfl
  obtain ⟨layerId, layerHash, layers, hlayers, _, hcase⟩ := h.written
  unfold Database.commitChange
  rw [hrequire _ hhead, ok_bind]
  have hsecond : r.database.requireSecondParent x.toExternals input.secondParent = .ok () := by
    unfold Database.requireSecondParent
    cases hparent : input.secondParent with
    | none => rfl
    | some parent => exact hrequire parent (stored_iff.mp (h.parent2 parent hparent))
  rw [hsecond, ok_bind, h.validated, ok_bind,
    show LayerTable.persistLayer x.hash x.real r.database.layers input.layer.1 = _ from hlayers,
    ok_bind]
  show Database.insertCommit x.toExternals { r.database with layers } commit
    (input.row schemaHash layerId).lineageRow = _
  unfold Database.insertCommit
  rcases hcase with ⟨hfresh, rfl⟩ | ⟨hold, rfl⟩
  · have hnone : r.database.commits[commit]? = none := by
      rw [database_commits, hfresh]
      rfl
    rw [show ({ r.database with layers } : Database HashId).commits[commit]? = none from hnone]
    show Except.ok _ = _
    have hcommits : r.database.commits.insert commit (input.row schemaHash layerId).lineageRow =
        (r.commits.insert commit (input.row schemaHash layerId)).map
          fun _ row => row.lineageRow := by
      refine ExtTreeMap.ext_getElem? fun c => ?_
      rw [lookup_insert, ExtTreeMap.getElem?_map, lookup_insert, database_commits]
      split
      · rfl
      · rfl
    rw [show ({ r.database with layers } : Database HashId).commits = r.database.commits from rfl,
      hcommits]
    rfl
  · rw [show ({ r.database with layers } : Database HashId).commits[commit]? = _ from
      database_row_of hold]
    show (if _ then _ else _) = _
    rw [if_pos rfl]
    rfl

end Commits

/-! ## 8. What holds between two writes -/

/-- **The two sides fit together**: commits load, references and parents resolve, layers and schemas
    are those of commits. -/
structure Linked (x : Hashing) (r : Repository) : Prop where
  sound : Database.Sound x.toExternals r.database
  coherent : Coherent r.store
  layers : ∀ (id : Int) e, r.layers.layers[id]? = some e →
    ∃ (c : HashId) (row : PersistedCommitRow), r.commits[c]? = some row ∧ row.layerId = id
  schemas : ∀ (c : HashId) (row : PersistedCommitRow), r.commits[c]? = some row →
    ∃ blob, r.schemas[row.schemaHash]? = some blob

section Linked

variable {x : Hashing} {r r' : Repository}

theorem Linked.layer (hl : Linked x r) {c : HashId} {row : PersistedCommitRow}
    (hrow : r.commits[c]? = some row) : ∃ e, r.layers.layers[row.layerId]? = some e := by
  obtain ⟨ls, hls, _⟩ := hl.sound.commits c _ (database_row_of hrow)
  have hstores : ∀ {row' : Storage.CommitRow HashId} {l : LayerBuilder},
      r.database.commits[c]? = some row' → r.database.Stores x.toExternals row'.layerId l →
        ∃ e, r.layers.layers[row.layerId]? = some e := by
    rintro row' l hrow' ⟨rows, _, _, hentry, _⟩
    rw [database_row_of hrow] at hrow'
    cases hrow'
    exact ⟨_, hentry⟩
  cases hls with
  | root hrow' _ hl' => exact hstores hrow' hl'
  | child hrow' _ hl' _ => exact hstores hrow' hl'

theorem Linked.head (hl : Linked x r) {branch : Text} {c : HashId}
    (h : r.branches[branch]? = some c) : ∃ row, r.commits[c]? = some row :=
  stored_iff.mp (hl.coherent.branches branch c h)

/-- What a commit takes from the layer and the schema it was given. -/
def commitContent (x : Hashing) (layerHash schemaHash : HashId) : CommitContent PreparedLayer where
  commitHash := x.commitHash
  layerHash := fun _ => layerHash
  schemaHash := fun _ => schemaHash
  validateCandidateLayer := fun _ _ _ => .ok ()

variable {input : CommitInput}

/-- **A commit, seen by references.** -/
theorem store_committed (hl : Linked x r) (h : Installed x input schemaHash r r' commit) :
    ∃ layerHash, Committed (commitContent x layerHash schemaHash) input.branch input.expectedHead
      input.secondParent input.layer input.metadata r.store r'.store commit := by
  obtain ⟨layerId, layerHash, layers, hlayers, hcommit, hr', hcommits⟩ := h.tables
  obtain ⟨⟨rows, hstored⟩, _⟩ := LayerTable.persistLayer_stores x.hash x.real hl.sound.layers hlayers
  obtain ⟨_, _, _, _, _, _, _, _, hold, _⟩ :=
    LayerTable.persistLayer_changes x.hash x.real hl.sound.layers input.layer.2 hlayers
  have hlayers' : r'.layers = layers := by rw [hr']
  have hbranches : r'.branches = r.branches.insert input.branch commit := by rw [hr']
  refine ⟨layerHash, hcommit, h.head, h.parent2, fun c => ?_, hbranches, ?_, ?_, ?_⟩
  · rw [store_commits, store_commits, hcommits c]
    split
    · show some (r'.record _) = _
      unfold record Repository.layerHash commitRow CommitInput.row commitContent
      rw [hlayers', hstored]
      rfl
    · cases hrow : r.commits[c]? with
      | none => rfl
      | some row =>
        obtain ⟨e, he⟩ := hl.layer hrow
        show some (r'.record row) = some (r.record row)
        unfold record Repository.layerHash
        rw [hlayers', hold _ e he, he]
  · show r'.tags = r.tags
    rw [hr']
  · show r'.sessions = r.sessions
    rw [hr']
  · show r'.resolutions = r.resolutions
    rw [hr']

theorem Installed.extends (hl : Linked x r)
    (h : Installed x input schemaHash r r' commit) : Database.Extends r.database r'.database := by
  have hchange := database_commitChange h (hl.head h.head)
  have hstep := Database.extends_step hl.sound
    (Database.Step.commit (x := x.toExternals) r.database commit input.expectedHead
      input.secondParent input.layer.2)
  rw [hchange] at hstep
  exact hstep

/-- **A commit keeps the sides together.** -/
theorem linked_installed (hl : Linked x r)
    (h : Installed x input schemaHash r r' commit) : Linked x r' := by
  have hchange := database_commitChange h (hl.head h.head)
  obtain ⟨layerHash, hcommitted⟩ := store_committed hl h
  obtain ⟨layerId, layerHash', layers, hlayers, _, hr', hcommits⟩ := h.tables
  obtain ⟨_, _, _, hcase⟩ := LayerTable.persistLayer_ok x.hash x.real hlayers
  have hlayers' : r'.layers = layers := by rw [hr']
  have hschemas : r'.schemas = r.schemas := by rw [hr']
  refine ⟨Database.sound_commit hl.sound input.layer.2 hchange,
    coherent_committed hl.coherent hcommitted, fun id e he => ?_, fun c row hrow => ?_⟩
  · rw [hlayers'] at he
    -- the layer was there, or is the one of the new commit
    have hnew : id = layerId ∨ r.layers.layers[id]? = some e := by
      rcases hcase with ⟨_, _, rfl⟩ | ⟨_, _, _, _, rfl⟩
      · exact .inr he
      · rw [lookup_insert] at he
        split at he
        · rename_i hid
          exact .inl hid
        · exact .inr he
    by_cases hid : id = layerId
    · exact ⟨commit, input.row schemaHash layerId, by rw [hcommits, if_pos rfl], hid.symm⟩
    · obtain ⟨c, row, hrow, hlayer⟩ := hl.layers id e (hnew.resolve_left hid)
      exact ⟨c, row, h.keeps hrow, hlayer⟩
  · rw [hschemas]
    rw [hcommits] at hrow
    split at hrow
    · cases hrow
      exact h.schema
    · exact hl.schemas c row hrow

end Linked

end Repository

end Lithograph.Version
