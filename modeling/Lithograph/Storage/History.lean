/-
  File:      Lithograph/Storage/History.lean
  Subject:   Commits over their first parents, and the snapshots they are loaded as
             (`storage/snapshot_lineage.rs`, `storage/snapshot.rs`, `storage/checkpoint.rs`,
             `storage/commit.rs`).

  A snapshot starts at the nearest checkpoint on the first-parent lineage of its commit, or empty,
  and applies the layers after it. Left out: branches, schemas and metadata, which no snapshot
  reads.
-/
import Lithograph.Storage.Checkpoint
import Lithograph.Storage.Invariants
import Lithograph.Storage.LayerTable

namespace Lithograph.Storage

open Std Library

/-- What the storage takes from elsewhere: the content hash, its text, a REAL column. -/
structure Externals (H : Type) where
  hash : Bytes → H
  toHex : H → String
  real : RealColumn

/-- One row of `_lithograph_commits`. -/
structure CommitRow (H : Type) where
  parent1 : Option H
  parent2 : Option H
  layerId : Int
  deriving DecidableEq

/-- A database file, as far as snapshots are concerned. -/
structure Database (H : Type) [Ord H] where
  ids : Identities := {}
  layers : LayerTable H := {}
  commits : ExtTreeMap H (CommitRow H) := ∅
  checkpoints : ExtTreeMap H CheckpointRows := ∅

def LayerBuilder.isEmpty (l : LayerBuilder) : Bool :=
  l.nodes.isEmpty && l.labels.isEmpty && l.relationships.isEmpty && l.properties.isEmpty

/-- No table of deltas has a row of the layer. -/
def LayerRows.isEmpty (rows : LayerRows) : Bool :=
  rows.nodes.isEmpty && rows.labels.isEmpty && rows.relationships.isEmpty && rows.properties.isEmpty

theorem LayerBuilder.isEmpty_iff {l : LayerBuilder} : l.isEmpty = true ↔ l = {} := by
  unfold LayerBuilder.isEmpty
  simp only [Bool.and_eq_true, ExtTreeMap.isEmpty_iff]
  constructor
  · rintro ⟨⟨⟨hn, hl⟩, hr⟩, hp⟩
    obtain ⟨_, _, _, _⟩ := l
    simp only at hn hl hr hp
    rw [hn, hl, hr, hp]
  · rintro rfl
    exact ⟨⟨⟨rfl, rfl⟩, rfl⟩, rfl⟩

variable {l : LayerBuilder} {id : Int} {ls : List LayerBuilder}

theorem LayerRows.isEmpty_ofLayer {real : RealColumn} {rows : LayerRows} (hbuilt : l.Built)
    (h : LayerRows.ofLayer real l = .ok rows) : rows.isEmpty = l.isEmpty := by
  obtain ⟨hn, hl, hr, hp, _⟩ := LayerRows.ofLayer_ok hbuilt h
  unfold LayerRows.isEmpty LayerBuilder.isEmpty
  simp only [ExtTreeMap.isEmpty_eq_size_beq_zero, hn, hl, hr, hp, ExtTreeMap.size_map]

namespace Database

variable {H : Type} [Ord H] [TransOrd H] [LawfulEqOrd H] [DecidableEq H] (x : Externals H)
  (db : Database H)

/-! ## 1. Lineages -/

/-- The rows stored under a layer id; an id without rows has none. -/
def layerRows (id : Int) : LayerRows := (db.layers.layers[id]?.map Prod.snd).getD {}

/-- The rows of `_lithograph_rel_delta`. -/
def tuples : RelationshipTuples :=
  db.layers.layers.toList.flatMap fun e => e.2.2.relationships.toList.map fun row => row.2.1

/-- `load_lineage_row`: the commit joined with its layer. -/
def loadLineageRow (commit : H) : StorageResult (CommitRow H × H × LayerRows) :=
  match db.commits[commit]? with
  | none => .error (.notFound ("Commit " ++ x.toHex commit))
  | some row =>
    match db.layers.layers[row.layerId]? with
    | none => .error (.notFound ("Commit " ++ x.toHex commit))
    | some (hash, rows) => .ok (row, hash, rows)

def recordLineageLayer (id : Int) (hash empty : H) (rows : LayerRows) (layers : List Int) :
    StorageResult (List Int) :=
  if !rows.isEmpty then .ok (layers ++ [id])
  else if hash ≠ empty then
    .error (.corrupt ("empty Layer " ++ toString id ++ " has a non-canonical content hash"))
  else .ok layers

/-- The error of a lineage that comes back to a commit. -/
def lineageCycle : StorageError := .corrupt "Commit first-parent lineage contains a cycle"

/-- The loop of `resolve_lineage`, with the commits it has visited and the layers it has collected.
    -/
def resolveLineageFrom (skip : Option H) (empty : H) :
    Nat → H → List H → List Int → StorageResult (Option H × List Int)
  | 0, _, _, _ => .error lineageCycle
  | fuel + 1, current, visited, layers =>
    if visited.contains current then .error lineageCycle
    else do
      let (row, hash, rows) ← db.loadLineageRow x current
      if some current ≠ skip ∧ db.checkpoints.contains current then pure (some current, layers)
      else do
        let layers ← recordLineageLayer row.layerId hash empty rows layers
        match row.parent1 with
        | none => pure (none, layers)
        | some parent => resolveLineageFrom skip empty fuel parent (current :: visited) layers

/-- `resolve_lineage`: where to start, and the layers to apply, newest first. -/
def resolveLineage (commit : H) (skip : Option H) : StorageResult (Option H × List Int) := do
  let empty ← LayerTable.contentHash x.hash {}
  db.resolveLineageFrom x skip empty (db.commits.size + 1) commit [] []

/-! ## 2. Snapshots -/

/-- `apply_persisted_layer_observed`. -/
def applyPersistedLayer (overlay : IndexedOverlay) (id : Int) : StorageResult IndexedOverlay :=
  overlay.applyRows (db.layerRows id)

/-- The checkpoint a snapshot starts at. -/
def loadCheckpoint (checkpoint : Option H) : StorageResult (Option GraphState) :=
  match checkpoint with
  | none => .ok none
  | some commit => do
    let graph ← (db.checkpoints[commit]?.getD {}).decode
    pure (some graph)

/-- `resolve_state_with_checkpoint_skip`. -/
def resolveState (commit : H) (skip : Option H) : StorageResult IndexedSnapshot := do
  let (checkpoint, layers) ← db.resolveLineage x commit skip
  let overlay ← layers.reverse.foldlM db.applyPersistedLayer {}
  let checkpoint ← db.loadCheckpoint checkpoint
  pure { checkpoint, overlay }

/-! ## 3. Checkpoints -/

/-- The loop of `first_parent_layers`, which has no end on a cycle. -/
def firstParentLayersFrom : Nat → H → StorageResult (List Int)
  | 0, _ => .error lineageCycle
  | fuel + 1, commit =>
    match db.commits[commit]? with
    | none => .error (.constraint "Query returned no rows")
    | some row =>
      match row.parent1 with
      | none => .ok [row.layerId]
      | some parent => do
        let layers ← firstParentLayersFrom fuel parent
        pure (layers ++ [row.layerId])

/-- `first_parent_layers`: oldest first. -/
def firstParentLayers (commit : H) : StorageResult (List Int) :=
  db.firstParentLayersFrom (db.commits.size + 1) commit

def createCheckpoint (commit : H) : StorageResult (Database H) :=
  if db.checkpoints.contains commit then .ok db
  else do
    let layers ← db.firstParentLayers commit
    let rows ← layers.foldlM (fun cp id => CheckpointRows.applyLayer x.real cp (db.layerRows id)) {}
    pure { db with checkpoints := db.checkpoints.insert commit rows }

def deleteCheckpoint (commit : H) : Database H :=
  { db with checkpoints := db.checkpoints.erase commit }

/-! ## 4. Commits -/

def requireCommit (commit : H) : StorageResult Unit :=
  if db.commits.contains commit then .ok ()
  else .error (.notFound ("Commit " ++ x.toHex commit))

/-- The second parent, where there is one. -/
def requireSecondParent (parent : Option H) : StorageResult Unit :=
  match parent with
  | none => .ok ()
  | some parent => db.requireCommit x parent

def validateCandidateLayer (expectedHead : H) (layer : LayerBuilder) : StorageResult Unit :=
  if layer.isEmpty then .ok ()
  else do
    let state ← db.resolveState x expectedHead none
    state.validateLayer layer db.ids db.tuples

def insertCommit (commit : H) (row : CommitRow H) : StorageResult (Database H) :=
  match db.commits[commit]? with
  | none => .ok { db with commits := db.commits.insert commit row }
  | some actual =>
    if actual = row then .ok db
    else .error (.corrupt ("Commit " ++ x.toHex commit ++
      " does not match its content-addressed fields"))

/-- `commit_change_inner` on a branch whose head is `expectedHead`, with the id that `commit_hash`
    gives. -/
def commitChange (commit expectedHead : H) (secondParent : Option H) (layer : LayerBuilder) :
    StorageResult (Database H) := do
  db.requireCommit x expectedHead
  db.requireSecondParent x secondParent
  db.validateCandidateLayer x expectedHead layer
  let (persisted, layers) ← LayerTable.persistLayer x.hash x.real db.layers layer
  insertCommit x { db with layers } commit ⟨some expectedHead, secondParent, persisted.1⟩

/-- `with_savepoint`: a write that fails leaves the database as it was. -/
def savepoint (result : StorageResult (Database H)) : Database H :=
  match result with
  | .ok db => db
  | .error _ => db

/-- `initialize_root`, on a database without commits. -/
def initializeRoot (root : H) : StorageResult (Database H) := do
  let (persisted, layers) ← LayerTable.persistLayer x.hash x.real db.layers {}
  pure { db with layers, commits := db.commits.insert root ⟨none, none, persisted.1⟩ }

/-! ## 5. Runs -/

/-- Identifiers are allocated and names interned: sequences go up, dictionaries grow. -/
structure Grows (ids ids' : Identities) : Prop where
  nextNode : ids.nextNode ≤ ids'.nextNode
  nextRelationship : ids.nextRelationship ≤ ids'.nextRelationship
  labels : ∀ id, (ids.labels.nameOf id).isSome → (ids'.labels.nameOf id).isSome
  relationshipTypes : ∀ id, (ids.relationshipTypes.nameOf id).isSome →
    (ids'.relationshipTypes.nameOf id).isSome
  propertyKeys : ∀ id, (ids.propertyKeys.nameOf id).isSome → (ids'.propertyKeys.nameOf id).isSome

/-- One change of the database. -/
inductive Step : Database H → Database H → Prop
  | identities {db : Database H} {ids : Identities} (h : Grows db.ids ids) : Step db { db with ids }
  | commit (db : Database H) (commit expectedHead : H) (secondParent : Option H)
      {layer : LayerBuilder} (hbuilt : layer.Built) :
      Step db (db.savepoint (db.commitChange x commit expectedHead secondParent layer))
  | createCheckpoint (db : Database H) (commit : H) :
      Step db (db.savepoint (db.createCheckpoint x commit))
  | deleteCheckpoint (db : Database H) (commit : H) : Step db (db.deleteCheckpoint commit)

/-- The databases a run from a root reaches. -/
inductive Reaches : Database H → Prop
  | root {db : Database H} {root : H} (h : initializeRoot x {} root = .ok db) : Reaches db
  | step {db db' : Database H} (h : Reaches db) (hstep : Step x db db') : Reaches db'

/-! ## 6. What a lineage leaves -/

/-- The rows under a layer id are those of a built layer, under its hash; the layer is given in
    canonical form. -/
def Stores (id : Int) (l : LayerBuilder) : Prop :=
  ∃ (rows : LayerRows) (built : LayerBuilder) (bytes : Bytes),
    db.layers.layers[id]? = some (x.hash bytes, rows) ∧ built.Built ∧
      built.hashedBytes = .ok bytes ∧ LayerRows.ofLayer x.real built = .ok rows ∧
      built.canonical = l

/-- **A lineage that ends**: the layers of a commit and of its first parents, newest first. -/
inductive Lineage : H → List LayerBuilder → Prop
  | root {commit : H} {row : CommitRow H} {l : LayerBuilder} (hrow : db.commits[commit]? = some row)
      (hparent : row.parent1 = none) (hstores : db.Stores x row.layerId l) : Lineage commit [l]
  | child {commit parent : H} {row : CommitRow H} {l : LayerBuilder} {ls : List LayerBuilder}
      (hrow : db.commits[commit]? = some row) (hparent : row.parent1 = some parent)
      (hstores : db.Stores x row.layerId l) (h : Lineage parent ls) : Lineage commit (l :: ls)

/-- The layers applied to a graph, the last one first. -/
def applyAll (ls : List LayerBuilder) (g : GraphState) : GraphState :=
  ls.foldr (fun l g => g.apply l) g

/-- What a lineage leaves. -/
def graphOf (ls : List LayerBuilder) : GraphState := applyAll ls {}

section Lineages

variable {x db}

omit [TransOrd H] [LawfulEqOrd H] [DecidableEq H] in
theorem stores_unique {l' : LayerBuilder} (h : db.Stores x id l) (h' : db.Stores x id l') :
    l = l' := by
  obtain ⟨rows, built, bytes, hentry, hbuilt, _, hrows, rfl⟩ := h
  obtain ⟨rows', built', bytes', hentry', hbuilt', _, hrows', rfl⟩ := h'
  rw [hentry, Option.some.injEq, Prod.mk.injEq] at hentry'
  rw [← hentry'.2] at hrows'
  have hload := LayerRows.loadLayer_persisted hbuilt hrows
  rw [LayerRows.loadLayer_persisted hbuilt' hrows'] at hload
  exact (Except.ok.inj hload).symm

variable {c : H} {empty : H}

omit [LawfulEqOrd H] [DecidableEq H] in
theorem Lineage.unique {ls : List LayerBuilder} (h : Lineage x db c ls) :
    ∀ {ls' : List LayerBuilder}, Lineage x db c ls' → ls = ls' := by
  induction h with
  | root hrow hparent hstores =>
    intro ls' h'
    cases h' with
    | root hrow' hparent' hstores' =>
      rw [hrow] at hrow'
      cases hrow'
      rw [stores_unique hstores hstores']
    | child hrow' hparent' hstores' h' =>
      rw [hrow] at hrow'
      cases hrow'
      rw [hparent] at hparent'
      cases hparent'
  | child hrow hparent hstores h ih =>
    intro ls' h'
    cases h' with
    | root hrow' hparent' hstores' =>
      rw [hrow] at hrow'
      cases hrow'
      rw [hparent] at hparent'
      cases hparent'
    | child hrow' hparent' hstores' h' =>
      rw [hrow] at hrow'
      cases hrow'
      rw [hparent] at hparent'
      cases hparent'
      rw [stores_unique hstores hstores', ih h']

omit [DecidableEq H] in
theorem Lineage.commit {ls : List LayerBuilder} (h : Lineage x db c ls) : c ∈ db.commits.keys := by
  have hmem : ∀ {row : CommitRow H}, db.commits[c]? = some row → c ∈ db.commits.keys :=
    fun hrow => ExtTreeMap.mem_keys.mpr (ExtTreeMap.mem_iff_isSome_getElem?.mpr
      (Option.isSome_of_eq_some hrow))
  cases h with
  | root hrow _ _ => exact hmem hrow
  | child hrow _ _ _ => exact hmem hrow

omit [DecidableEq H] in
/-- **A lineage is no longer than the table of commits.** -/
theorem Lineage.length_le {ls : List LayerBuilder} (h : Lineage x db c ls) :
    ls.length ≤ db.commits.size := by
  -- the commits of a lineage differ, because the lineages of earlier ones are shorter
  have hcommits : ∃ cs : List H, cs.length = ls.length ∧ cs.Nodup ∧
      ∀ v ∈ cs, ∃ vs, Lineage x db v vs ∧ vs.length ≤ ls.length := by
    induction h with
    | @root c _ _ hrow hparent hstores =>
      refine ⟨[c], rfl, by simp, fun v hv => ?_⟩
      rw [List.mem_singleton.mp hv]
      exact ⟨_, .root hrow hparent hstores, Nat.le_refl _⟩
    | @child c _ _ _ ls hrow hparent hstores h ih =>
      obtain ⟨cs, hlength, hnodup, hshort⟩ := ih
      have hself := Lineage.child hrow hparent hstores h
      refine ⟨c :: cs, by rw [List.length_cons, List.length_cons, hlength],
        List.nodup_cons.mpr ⟨fun hmem => ?_, hnodup⟩, fun v hv => ?_⟩
      · obtain ⟨vs, hvs, hle⟩ := hshort c hmem
        rw [← hself.unique hvs, List.length_cons] at hle
        omega
      · rcases List.mem_cons.mp hv with rfl | hv
        · exact ⟨_, hself, Nat.le_refl _⟩
        · obtain ⟨vs, hvs, hle⟩ := hshort v hv
          exact ⟨vs, hvs, Nat.le_succ_of_le hle⟩
  obtain ⟨cs, hlength, hnodup, hshort⟩ := hcommits
  have hsubset : cs ⊆ db.commits.keys := fun v hv => by
    obtain ⟨vs, hvs, _⟩ := hshort v hv
    exact hvs.commit
  have hle := (List.subperm_of_subset hnodup hsubset).length_le
  rw [hlength, ExtTreeMap.length_keys] at hle
  exact hle

omit [TransOrd H] [LawfulEqOrd H] in
theorem recordLineageLayer_ok (h : db.Stores x id l)
    (hempty : LayerTable.contentHash x.hash {} = .ok empty) {e : H × LayerRows}
    (he : db.layers.layers[id]? = some e) (acc : List Int) :
    recordLineageLayer id e.1 empty e.2 acc = .ok (acc ++ [id]) ∨
      (recordLineageLayer id e.1 empty e.2 acc = .ok acc ∧ ∀ g : GraphState, g.apply l = g) := by
  obtain ⟨rows, built, bytes, hentry, hbuilt, hbytes, hrows, rfl⟩ := h
  rw [hentry] at he
  cases he
  unfold recordLineageLayer
  rw [LayerRows.isEmpty_ofLayer hbuilt hrows]
  split
  · exact Or.inl rfl
  · rename_i hnothing
    have hnothing : built = {} := LayerBuilder.isEmpty_iff.mp (by simpa using hnothing)
    have hhash : x.hash bytes = empty := by
      unfold LayerTable.contentHash at hempty
      rw [hnothing] at hbytes
      rw [hbytes] at hempty
      exact Except.ok.inj hempty
    refine Or.inr ⟨if_neg (by simpa using hhash), fun g => ?_⟩
    rw [hnothing, show LayerBuilder.canonical {} = {} from LayerBuilder.isEmpty_iff.mp rfl]
    exact g.apply_empty

/-! ## 7. Loading -/

/-- Where a snapshot may start: nowhere, or at a checkpoint that shows its commit. -/
def StartsAt (x : Externals H) (db : Database H) (checkpoint : Option H) (g : GraphState) : Prop :=
  match checkpoint with
  | none => g = {}
  | some commit => ∃ cp ls, db.checkpoints[commit]? = some cp ∧ Lineage x db commit ls ∧
      g = graphOf ls ∧ cp.Shows g

/-- Each checkpoint shows its commit. -/
def CheckpointsShow (x : Externals H) (db : Database H) : Prop :=
  ∀ (commit : H) cp, db.checkpoints[commit]? = some cp →
    ∃ ls, Lineage x db commit ls ∧ cp.Shows (graphOf ls)

theorem applyAll_append (ls ls' : List LayerBuilder) (g : GraphState) :
    applyAll (ls ++ ls') g = applyAll ls (applyAll ls' g) := List.foldr_append

omit [LawfulEqOrd H] in
/-- One round of the walk, at a commit it has not visited. -/
theorem resolveLineageFrom_round (skip : Option H)
    (hempty : LayerTable.contentHash x.hash {} = .ok empty) {row : CommitRow H}
    (hrow : db.commits[c]? = some row) (hstores : db.Stores x row.layerId l) (fuel : Nat)
    {visited : List H} (hnew : c ∉ visited) (acc : List Int) :
    ∃ ids above, List.Forall₂ (db.Stores x) ids above ∧ (∀ g, applyAll above g = g.apply l) ∧
      db.resolveLineageFrom x skip empty (fuel + 1) c visited acc =
        if some c ≠ skip ∧ db.checkpoints.contains c then .ok (some c, acc)
        else match row.parent1 with
          | none => .ok (none, acc ++ ids)
          | some parent => db.resolveLineageFrom x skip empty fuel parent (c :: visited)
              (acc ++ ids) := by
  have hvisited : visited.contains c = false := by
    rw [Bool.eq_false_iff, ne_eq, List.contains_iff_mem]
    exact hnew
  obtain ⟨rows, built, bytes, hentry, hrest⟩ := hstores
  have hload : db.loadLineageRow x c = .ok (row, x.hash bytes, rows) := by
    unfold loadLineageRow
    rw [hrow]
    simp only [hentry]
  rw [resolveLineageFrom, hvisited, hload, ok_bind]
  simp only [Bool.false_eq_true, if_false]
  rcases recordLineageLayer_ok ⟨rows, built, bytes, hentry, hrest⟩ hempty hentry acc with
    hrecord | ⟨hrecord, hnothing⟩
  · refine ⟨[row.layerId], [l], .cons ⟨rows, built, bytes, hentry, hrest⟩ .nil, fun _ => rfl, ?_⟩
    rw [hrecord, ok_bind]
    rfl
  · refine ⟨[], [], .nil, fun g => (hnothing g).symm, ?_⟩
    rw [hrecord, ok_bind, List.append_nil]
    rfl

omit [LawfulEqOrd H] in
/-- **The walk ends** at a checkpoint or behind the root, and leaves out only empty layers. -/
theorem resolveLineageFrom_ok (hcp : CheckpointsShow x db) (skip : Option H)
    (hempty : LayerTable.contentHash x.hash {} = .ok empty) (h : Lineage x db c ls) :
    ∀ (fuel : Nat) (visited : List H) (acc : List Int), ls.length ≤ fuel →
      (∀ v ∈ visited, ∃ vs, Lineage x db v vs ∧ ls.length < vs.length) →
      ∃ k ids above g, db.resolveLineageFrom x skip empty fuel c visited acc = .ok (k, acc ++ ids) ∧
        StartsAt x db k g ∧ List.Forall₂ (db.Stores x) ids above ∧
        graphOf ls = applyAll above g := by
  have hnew : ∀ {c : H} {ls : List LayerBuilder} {visited : List H}, Lineage x db c ls →
      (∀ v ∈ visited, ∃ vs, Lineage x db v vs ∧ ls.length < vs.length) → c ∉ visited := by
    intro c ls visited hself hvisited hmem
    obtain ⟨vs, hvs, hlt⟩ := hvisited c hmem
    rw [hself.unique hvs] at hlt
    exact Nat.lt_irrefl _ hlt
  have hstops : ∀ {c : H} {ls : List LayerBuilder}, Lineage x db c ls →
      db.checkpoints.contains c → StartsAt x db (some c) (graphOf ls) := by
    intro c ls hself hcontains
    rw [ExtTreeMap.contains_eq_isSome_getElem?] at hcontains
    obtain ⟨cp, hentry⟩ := Option.isSome_iff_exists.mp hcontains
    obtain ⟨ls', hls', hshows⟩ := hcp c cp hentry
    rw [← hself.unique hls'] at hshows
    exact ⟨cp, ls, hentry, hself, rfl, hshows⟩
  induction h with
  | @root c row l hrow hparent hstores =>
    intro fuel visited acc hfuel hvisited
    have hself := Lineage.root hrow hparent hstores
    obtain ⟨fuel, rfl⟩ := Nat.exists_eq_add_of_le' hfuel
    obtain ⟨ids, above, hstored, habove, hround⟩ := resolveLineageFrom_round skip hempty
      hrow hstores fuel (hnew hself hvisited) acc
    rw [show fuel + [l].length = fuel + 1 from rfl, hround]
    split
    · rename_i hstop
      exact ⟨some c, [], [], graphOf [l], by rw [List.append_nil], hstops hself hstop.2, .nil, rfl⟩
    · rw [hparent]
      exact ⟨none, ids, above, {}, rfl, rfl, hstored, (habove {}).symm⟩
  | @child c parent row l ls hrow hparent hstores h ih =>
    intro fuel visited acc hfuel hvisited
    have hself := Lineage.child hrow hparent hstores h
    obtain ⟨fuel, rfl⟩ := Nat.exists_eq_add_of_le' hfuel
    obtain ⟨ids, above, hstored, habove, hround⟩ := resolveLineageFrom_round skip hempty
      hrow hstores (fuel + ls.length) (hnew hself hvisited) acc
    rw [show fuel + (l :: ls).length = fuel + ls.length + 1 from rfl, hround]
    split
    · rename_i hstop
      exact ⟨some c, [], [], graphOf (l :: ls), by rw [List.append_nil], hstops hself hstop.2, .nil,
        rfl⟩
    · obtain ⟨k, ids', above', g, hresolve, hstart, hstored', hgraph⟩ :=
        ih (fuel + ls.length) (c :: visited) (acc ++ ids) (Nat.le_add_left _ _) (by
          intro v hv
          rcases List.mem_cons.mp hv with rfl | hv
          · exact ⟨_, hself, Nat.lt_succ_self _⟩
          · obtain ⟨vs, hvs, hlt⟩ := hvisited v hv
            exact ⟨vs, hvs, Nat.lt_of_succ_lt hlt⟩)
      rw [hparent]
      refine ⟨k, ids ++ ids', above ++ above', g, ?_, hstart, List.rel_append hstored hstored', ?_⟩
      · rw [← List.append_assoc]
        exact hresolve
      · rw [applyAll_append, ← hgraph]
        exact (habove (graphOf ls)).symm

omit [Ord H] [TransOrd H] [LawfulEqOrd H] [DecidableEq H] in
theorem contentHash_empty : ∃ empty, LayerTable.contentHash x.hash {} = .ok empty :=
  ⟨_, rfl⟩

/-- What an overlay takes from stored layers. -/
structure FromLayers (db : Database H) (o : IndexedOverlay) : Prop where
  indexed : o.Indexed
  formed : o.toOverlay.layer.Formed
  rows : ∀ (id : RelationshipId) delta, o.relationships[id]? = some delta → delta.record ∈ db.tuples

omit [TransOrd H] [LawfulEqOrd H] [DecidableEq H] in
theorem fromLayers_empty : FromLayers db {} := by
  refine ⟨IndexedOverlay.indexed_empty, ⟨?_, ?_, ?_, ?_⟩, ?_⟩
  · intro row op h
    simp [Overlay.layer] at h
  · intro id delta h
    simp [Overlay.layer] at h
  · intro slot delta h
    simp [Overlay.layer] at h
  · intro slot delta h
    simp [Overlay.layer] at h
  · intro id delta h
    simp at h

omit [TransOrd H] [LawfulEqOrd H] [DecidableEq H] in
theorem stores_formed (h : db.Stores x id l) :
    l.Formed ∧ ∀ (rel : RelationshipId) delta, l.relationships[rel]? = some delta →
      delta.record ∈ db.tuples := by
  obtain ⟨rows, built, bytes, hentry, hbuilt, _, hrows, rfl⟩ := h
  have hcanonical : ∀ (slot : PropertySlot) delta, built.canonical.properties[slot]? = some delta →
      ∃ d, built.properties[slot]? = some d ∧ d.canonical = delta := by
    intro slot delta hdelta
    have hmap : built.canonical.properties[slot]? =
        built.properties[slot]?.map PropertyDelta.canonical := ExtTreeMap.getElem?_map
    rw [hmap] at hdelta
    exact Option.map_eq_some_iff.mp hdelta
  refine ⟨⟨?_, ?_, ?_, ?_⟩, fun rel delta hdelta => ?_⟩
  · intro row op hop
    exact (hbuilt.labels row op hop).2.1
  · intro rel delta hdelta
    exact (hbuilt.relationships rel delta hdelta).1
  · intro slot delta hdelta
    obtain ⟨d, hd, rfl⟩ := hcanonical slot delta hdelta
    exact (hbuilt.properties slot d hd).2.1.1
  · intro slot delta hdelta
    obtain ⟨d, hd, rfl⟩ := hcanonical slot delta hdelta
    rcases (hbuilt.properties slot d hd).2.2 with ⟨hop, v, hv, _⟩ | ⟨hop, hv⟩
    · simp [PropertyDelta.canonical, hop, hv]
    · simp [PropertyDelta.canonical, hop, hv]
  · have hrelationships := (LayerRows.ofLayer_ok hbuilt hrows).2.2.1
    refine List.mem_flatMap.mpr ⟨(id, x.hash bytes, rows), mem_of_lookup hentry, ?_⟩
    refine List.mem_map.mpr ⟨(rel, delta.record, delta.op.toInt), mem_of_lookup ?_, rfl⟩
    rw [hrelationships, ExtTreeMap.getElem?_map]
    have hbuiltDelta : built.relationships[rel]? = some delta := hdelta
    rw [hbuiltDelta]
    rfl

omit [TransOrd H] [LawfulEqOrd H] [DecidableEq H] in
theorem applyPersistedLayer_ok {o : IndexedOverlay} (ho : FromLayers db o) (h : db.Stores x id l) :
    ∃ o', db.applyPersistedLayer o id = .ok o' ∧ FromLayers db o' ∧
      ∀ g : GraphState, g.apply o'.toOverlay.layer = (g.apply o.toOverlay.layer).apply l := by
  obtain ⟨hformed, htuples⟩ := stores_formed h
  obtain ⟨rows, built, bytes, hentry, hbuilt, _, hrows, rfl⟩ := h
  obtain ⟨hindexed, hoverlay⟩ := IndexedOverlay.applied o ho.indexed hformed.keyed
  have hrowsOf : db.layerRows id = rows := by
    unfold layerRows
    rw [hentry]
    rfl
  have hrel : ∀ (rel : RelationshipId) delta,
      (o.apply built.canonical).relationships[rel]? = some delta →
        built.canonical.relationships[rel]? = some delta ∨ o.relationships[rel]? = some delta := by
    intro rel delta hdelta
    rw [hoverlay] at hdelta
    have hlook : (insertEntries o.relationships built.canonical.relationships)[rel]? =
        some delta := hdelta
    rw [getElem?_insertEntries] at hlook
    cases hl : built.canonical.relationships[rel]? with
    | none =>
      rw [hl] at hlook
      exact Or.inr hlook
    | some d =>
      rw [hl] at hlook
      exact Or.inl hlook
  refine ⟨o.apply built.canonical, ?_, ⟨hindexed, ?_, fun rel delta hdelta => ?_⟩, fun g => ?_⟩
  · unfold applyPersistedLayer
    rw [hrowsOf]
    exact IndexedOverlay.applyRows_persisted hbuilt hrows o
  · rw [hoverlay]
    exact formed_apply ho.formed hformed
  · rcases hrel rel delta hdelta with hl | ho'
    · exact htuples rel delta hl
    · exact ho.rows rel delta ho'
  · rw [hoverlay]
    exact GraphState.apply_overlay g built.canonical o.toOverlay

omit [TransOrd H] [LawfulEqOrd H] [DecidableEq H] in
theorem applyPersistedLayers_ok {ids : List Int} {above : List LayerBuilder}
    (h : List.Forall₂ (db.Stores x) ids above) :
    ∃ o, ids.reverse.foldlM db.applyPersistedLayer {} = .ok o ∧ FromLayers db o ∧
      ∀ g : GraphState, g.apply o.toOverlay.layer = applyAll above g := by
  induction h with
  | nil => exact ⟨{}, rfl, fromLayers_empty, fun g => g.apply_empty⟩
  | @cons id l ids above hstores _ ih =>
    obtain ⟨o, hfold, ho, hgraph⟩ := ih
    obtain ⟨o', happly, ho', hgraph'⟩ := applyPersistedLayer_ok ho hstores
    refine ⟨o', ?_, ho', fun g => ?_⟩
    · rw [List.reverse_cons, List.foldlM_append, hfold, ok_bind, List.foldlM_cons, happly]
      rfl
    · rw [hgraph', hgraph]
      rfl

/-- What the stored relationships of one database satisfy: an id stands for one tuple. -/
def TuplesStable (tuples : RelationshipTuples) : Prop :=
  ∀ record ∈ tuples, ∀ record' ∈ tuples, record.id = record'.id → record = record'

/-- **A snapshot shows what the layers of its lineage leave**, wherever it starts. -/
theorem resolveState_ok (hcp : CheckpointsShow x db) (hstable : TuplesStable db.tuples)
    (hknown : ∀ {c ls}, Lineage x db c ls → ∀ (id : RelationshipId) record,
      (graphOf ls).relationships[id]? = some record → record.id = id ∧ record ∈ db.tuples)
    (h : Lineage x db c ls) (skip : Option H) :
    ∃ s, db.resolveState x c skip = .ok s ∧ s.snapshot.graph = graphOf ls ∧ s.Sound ∧
      (∀ (id : RelationshipId) record, s.base.relationships[id]? = some record →
        record ∈ db.tuples) ∧
      (∀ (id : RelationshipId) delta, s.overlay.relationships[id]? = some delta →
        delta.record ∈ db.tuples) ∧ (db.checkpoints = ∅ → s.checkpoint = none) := by
  obtain ⟨empty, hempty⟩ := contentHash_empty (x := x)
  obtain ⟨k, ids, above, g, hresolve, hstart, hstored, hgraph⟩ :=
    resolveLineageFrom_ok hcp skip hempty h (db.commits.size + 1) [] []
      (Nat.le_succ_of_le h.length_le) (fun v hv => absurd hv List.not_mem_nil)
  obtain ⟨o, hfold, ho, hover⟩ := applyPersistedLayers_ok hstored
  have hbase : ∃ checkpoint, db.loadCheckpoint k = .ok checkpoint ∧ checkpoint.getD {} = g ∧
      (db.checkpoints = ∅ → checkpoint = none) ∧
      ∀ (id : RelationshipId) record, g.relationships[id]? = some record →
        record.id = id ∧ record ∈ db.tuples := by
    cases k with
    | none =>
      refine ⟨none, rfl, hstart.symm, fun _ => rfl, fun id record hrecord => ?_⟩
      rw [show g = {} from hstart] at hrecord
      simp at hrecord
    | some commit =>
      obtain ⟨cp, ls', hentry, hls', rfl, hshows⟩ := hstart
      refine ⟨some (graphOf ls'), ?_, rfl, fun hnone => ?_, hknown hls'⟩
      · unfold loadCheckpoint
        simp only [hentry, Option.getD_some, CheckpointRows.decode_shows hshows, ok_bind]
        rfl
      · rw [hnone] at hentry
        simp at hentry
  obtain ⟨checkpoint, hload, hg, hnone, hrecords⟩ := hbase
  have hbaseRows : ∀ (id : RelationshipId) record,
      (checkpoint.getD {}).relationships[id]? = some record →
        record.id = id ∧ record ∈ db.tuples := by
    rw [hg]
    exact hrecords
  refine ⟨⟨checkpoint, o⟩, ?_, ?_, ⟨⟨?_, ?_, ?_, ?_, ?_⟩, ho.indexed, ?_⟩,
    fun id record hrecord => (hbaseRows id record hrecord).2, ho.rows, hnone⟩
  · unfold resolveState resolveLineage
    rw [hempty, ok_bind, hresolve, ok_bind]
    simp only [List.nil_append, hfold, ok_bind, hload]
    rfl
  · show (checkpoint.getD {}).apply o.toOverlay.layer = _
    rw [hg, hover, hgraph]
  · exact ho.formed.labels
  · exact ho.formed.keyed
  · exact ho.formed.keys
  · exact ho.formed.values
  · intro id record hrecord
    exact (hbaseRows id record hrecord).1
  · intro id record delta hrecord hdelta
    have hmem := hbaseRows id record hrecord
    have hid : delta.record.id = record.id := by
      rw [hmem.1]
      exact ho.formed.keyed id delta hdelta
    exact hstable _ (ho.rows id delta hdelta) _ hmem.2 hid

/-! ## 8. Checkpoints -/

omit [LawfulEqOrd H] [DecidableEq H] in
theorem firstParentLayersFrom_ok (h : Lineage x db c ls) :
    ∀ fuel, ls.length ≤ fuel → ∃ ids, db.firstParentLayersFrom fuel c = .ok ids.reverse ∧
      List.Forall₂ (db.Stores x) ids ls := by
  induction h with
  | @root c row l hrow hparent hstores =>
    intro fuel hfuel
    obtain ⟨fuel, rfl⟩ := Nat.exists_eq_add_of_le' hfuel
    refine ⟨[row.layerId], ?_, .cons hstores .nil⟩
    rw [show fuel + [l].length = fuel + 1 from rfl, firstParentLayersFrom, hrow]
    show (match row.parent1 with
      | none => _
      | some parent => _) = _
    rw [hparent]
    rfl
  | @child c parent row l ls hrow hparent hstores h ih =>
    intro fuel hfuel
    obtain ⟨fuel, rfl⟩ := Nat.exists_eq_add_of_le' hfuel
    obtain ⟨ids, hids, hstored⟩ := ih (fuel + ls.length) (Nat.le_add_left _ _)
    refine ⟨row.layerId :: ids, ?_, .cons hstores hstored⟩
    rw [show fuel + (l :: ls).length = fuel + ls.length + 1 from rfl, firstParentLayersFrom, hrow]
    show (match row.parent1 with
      | none => _
      | some parent => _) = _
    rw [hparent, List.reverse_cons]
    show (db.firstParentLayersFrom (fuel + ls.length) parent >>= _) = _
    rw [hids, ok_bind]
    rfl

omit [TransOrd H] [LawfulEqOrd H] [DecidableEq H] in
theorem applyLayers_shows {ids : List Int} (h : List.Forall₂ (db.Stores x) ids ls) :
    ∃ cp, ids.reverse.foldlM (fun cp id => CheckpointRows.applyLayer x.real cp (db.layerRows id))
      {} = .ok cp ∧ cp.Shows (graphOf ls) := by
  induction h with
  | nil => exact ⟨{}, rfl, CheckpointRows.shows_empty⟩
  | @cons id l ids ls hstores _ ih =>
    obtain ⟨cp, hfold, hshows⟩ := ih
    obtain ⟨rows, built, bytes, hentry, hbuilt, _, hrows, rfl⟩ := hstores
    have hrowsOf : db.layerRows id = rows := by
      unfold layerRows
      rw [hentry]
      rfl
    obtain ⟨cp', happly, hshows'⟩ := CheckpointRows.applyLayer_persisted hbuilt hrows hshows
    refine ⟨cp', ?_, hshows'⟩
    rw [List.reverse_cons, List.foldlM_append, hfold, ok_bind, List.foldlM_cons, hrowsOf, happly]
    rfl

omit [DecidableEq H] in
theorem createCheckpoint_ok {db' : Database H} (h : db.createCheckpoint x c = .ok db') :
    db' = db ∨ ∃ cp row, db' = { db with checkpoints := db.checkpoints.insert c cp } ∧
      db.commits[c]? = some row ∧ ∀ {ls}, Lineage x db c ls → cp.Shows (graphOf ls) := by
  unfold createCheckpoint at h
  split at h
  · cases h
    exact Or.inl rfl
  · obtain ⟨layers, hlayers, h⟩ := bind_eq_ok.mp h
    obtain ⟨rows, hrows, h⟩ := bind_eq_ok.mp h
    cases h
    have hcommit : ∃ row, db.commits[c]? = some row := by
      unfold firstParentLayers firstParentLayersFrom at hlayers
      cases hrow : db.commits[c]? with
      | none =>
        rw [hrow] at hlayers
        cases hlayers
      | some row => exact ⟨row, rfl⟩
    obtain ⟨row, hrow⟩ := hcommit
    refine Or.inr ⟨rows, row, rfl, hrow, fun {ls} hls => ?_⟩
    obtain ⟨ids, hids, hstored⟩ := firstParentLayersFrom_ok hls (db.commits.size + 1)
      (Nat.le_succ_of_le hls.length_le)
    obtain ⟨cp, hcp, hshows⟩ := applyLayers_shows hstored
    unfold firstParentLayers at hlayers
    rw [hids] at hlayers
    cases hlayers
    rw [hcp] at hrows
    cases hrows
    exact hshows

end Lineages

end Database

end Lithograph.Storage
