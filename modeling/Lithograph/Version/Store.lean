/-
  File:      Lithograph/Version/Store.lean
  Subject:   The version tables of a database file and the writes on them: commits, branches and
             tags (`storage/commit.rs`, `storage/version/refs.rs`, `storage/version/history.rs`,
             `storage/version/gc.rs`).

  A table is a sorted map on its primary key. Every write may fail half way, as SQL statements may.

  * `reachableCommits_total`: the walk over the history ends.
-/
import Lithograph.Storage.Encoding
import Lithograph.Library.Transaction
import Lithograph.Library.Worklist

namespace Lithograph.Version

open Std Library Storage

/-! ## 1. The tables -/

/-- The 32 bytes that name a commit, a layer, a schema or a conflict. -/
abbrev HashId := Bytes

instance : LawfulBEq HashId := inferInstance

instance : TransOrd (Text × HashId) := inferInstance

def hexDigit (n : Nat) : Char :=
  if n < 10 then Char.ofNat (48 + n) else Char.ofNat (87 + n)

def HashId.toHex (id : HashId) : String :=
  String.ofList (id.flatMap fun b => [hexDigit (b.toNat / 16), hexDigit (b.toNat % 16)])

structure CommitMetadata where
  author : Option Text
  message : Option Text
  committedAt : Int
  deriving DecidableEq

/-- `CommitRecord`: one row of `_lithograph_commits`. -/
structure CommitRecord where
  parent1 : Option HashId
  parent2 : Option HashId
  layerHash : HashId
  schemaHash : HashId
  metadata : CommitMetadata
  deriving DecidableEq

/-- The parents of a commit, first parent first. -/
def CommitRecord.parents (record : CommitRecord) : List HashId :=
  [record.parent1, record.parent2].filterMap id

/-- `MergeSessionRecord`: one row of `_lithograph_merge_sessions`, less its key. -/
structure MergeSessionRecord where
  targetBranch : Text
  ours : HashId
  theirs : HashId
  revision : Int
  createdAt : Int
  deriving DecidableEq

abbrev Commits := ExtTreeMap HashId CommitRecord

/-- The version tables of one database file. -/
structure Store where
  commits : Commits
  branches : ExtTreeMap Text HashId
  tags : ExtTreeMap Text HashId
  sessions : ExtTreeMap Text MergeSessionRecord
  /-- `resolution_json` by session and conflict. -/
  resolutions : ExtTreeMap (Text × HashId) Text

/-- A storage function on the tables. -/
abbrev StorageTx (α : Type) := EStateM StorageError Store α

/-! ## 2. References -/

/-- `Debug for str`: the text in quotes. -/
def debugText (t : Text) : String := (String.ofList t).quote

/-- `split('/').any(|segment| …)`. -/
def badSegment (segment : Text) : Bool :=
  segment.isEmpty || segment == ".".toList || segment == "..".toList

def validateRefName (name : Text) : StorageResult Unit :=
  let bytes := Text.utf8 name
  if bytes.isEmpty || 255 < bytes.length then
    .error (.corrupt "ref name must contain between 1 and 255 UTF-8 bytes")
  else if bytes.any fun byte => byte < 0x20 || byte == 0x7f then
    .error (.corrupt "ref name must not contain NUL or ASCII control characters")
  else if name.head? = some '/' ∨ name.getLast? = some '/' then
    .error (.corrupt "ref name must not start or end with '/'")
  else if (name.splitOn '/').any badSegment then
    .error (.corrupt "ref name contains an invalid path segment")
  else .ok ()

def commitExists (store : Store) (commit : HashId) : Bool := store.commits.contains commit

def requireCommit (commit : HashId) (store : Store) : StorageResult Unit :=
  if commitExists store commit then .ok ()
  else .error (.notFound ("Commit " ++ HashId.toHex commit))

def branchHead (branch : Text) (store : Store) : StorageResult HashId :=
  match store.branches[branch]? with
  | some commit => .ok commit
  | none => .error (.notFound ("branch " ++ debugText branch))

/-- `INSERT INTO _lithograph_branches`. -/
def insertBranch (name : Text) (commit : HashId) : StorageTx Unit := fun store =>
  if store.branches.contains name then
    .error (.constraint "UNIQUE constraint failed: _lithograph_branches.name") store
  else .ok () { store with branches := store.branches.insert name commit }

def createBranchRef (name : Text) (source : HashId) : StorageTx Unit := do
  lifted (validateRefName name)
  reading (requireCommit source)
  insertBranch name source

/-- `delete_branch_ref`, with the branch this connection has checked out. -/
def deleteBranchRef (active name : Text) : StorageTx (Option HashId) := do
  lifted (validateRefName name)
  if name = "main".toList then
    lifted (.error (.corrupt "the main Branch cannot be deleted"))
  else if active = name then
    lifted (.error (.corrupt "the active Branch cannot be deleted"))
  else do
    let previous ← reading fun store => .ok store.branches[name]?
    writing fun store => { store with branches := store.branches.erase name }
    pure previous

/-- `UPDATE _lithograph_branches SET commit_id … WHERE name … AND commit_id …`, failing unless one
    row changed. -/
def compareAndMoveBranch (branch : Text) (expectedHead commit : HashId) : StorageTx Unit :=
  fun store =>
    if store.branches[branch]? = some expectedHead then
      .ok () { store with branches := store.branches.insert branch commit }
    else .error .branchHeadMoved store

def moveBranchRef (name : Text) (expected : Option HashId) (target : HashId) :
    StorageTx (Option HashId) := do
  lifted (validateRefName name)
  reading (requireCommit target)
  match ← reading fun store => .ok store.branches[name]? with
  | none => pure none
  | some previous =>
    if expected = none ∨ expected = some previous then do
      compareAndMoveBranch name previous target
      pure (some previous)
    else lifted (.error .branchHeadMoved)

/-- `INSERT INTO _lithograph_tags`. -/
def insertTag (name : Text) (commit : HashId) : StorageTx Unit := fun store =>
  if store.tags.contains name then
    .error (.constraint "UNIQUE constraint failed: _lithograph_tags.name") store
  else .ok () { store with tags := store.tags.insert name commit }

def createTag (name : Text) (target : HashId) : StorageTx Unit := do
  lifted (validateRefName name)
  reading (requireCommit target)
  insertTag name target

def moveTag (name : Text) (target : HashId) : StorageTx (Option HashId) := do
  lifted (validateRefName name)
  reading (requireCommit target)
  match ← reading fun store => .ok store.tags[name]? with
  | none => pure none
  | some previous => do
    writing fun store => { store with tags := store.tags.insert name target }
    pure (some previous)

def deleteTag (name : Text) : StorageTx (Option HashId) := do
  lifted (validateRefName name)
  let previous ← reading fun store => .ok store.tags[name]?
  writing fun store => { store with tags := store.tags.erase name }
  pure previous

/-! ## 3. Commits -/

/-- `insert_commit`: `INSERT OR IGNORE`, then the row that is there must be the row that was
    meant. -/
def insertCommit (id : HashId) (row : CommitRecord) : StorageTx Unit := fun store =>
  match store.commits[id]? with
  | none => .ok () { store with commits := store.commits.insert id row }
  | some actual =>
    if actual = row then .ok () store
    else .error (.corrupt ("Commit " ++ HashId.toHex id ++
      " does not match its content-addressed fields")) store

/-- What a commit takes from the graph: hashes (`commit_hash`), and the check of a layer
    (`validate_candidate_layer`). -/
structure CommitContent (L : Type) where
  commitHash : CommitRecord → HashId
  layerHash : L → HashId
  schemaHash : L → HashId
  validateCandidateLayer : Commits → HashId → L → StorageResult Unit

/-- The row a commit inserts. -/
def commitRow {L : Type} (content : CommitContent L) (expectedHead : HashId)
    (secondParent : Option HashId) (layer : L) (metadata : CommitMetadata) : CommitRecord :=
  { parent1 := some expectedHead, parent2 := secondParent, layerHash := content.layerHash layer,
    schemaHash := content.schemaHash layer, metadata }

/-- `if let Some(parent) = second_parent { require_commit }`. -/
def requireSecondParent (secondParent : Option HashId) (store : Store) : StorageResult Unit :=
  match secondParent with
  | some parent => requireCommit parent store
  | none => .ok ()

/-- `commit_change_inner`. -/
def commitChange {L : Type} (content : CommitContent L) (branch : Text) (expectedHead : HashId)
    (secondParent : Option HashId) (layer : L) (metadata : CommitMetadata) :
    StorageTx HashId := do
  let head ← reading (branchHead branch)
  if head = expectedHead then do
    reading (requireSecondParent secondParent)
    reading fun store => content.validateCandidateLayer store.commits expectedHead layer
    let row := commitRow content expectedHead secondParent layer metadata
    insertCommit (content.commitHash row) row
    compareAndMoveBranch branch expectedHead (content.commitHash row)
    pure (content.commitHash row)
  else lifted (.error .branchHeadMoved)

def loadCommit (commits : Commits) (commit : HashId) : StorageResult CommitRecord :=
  match commits[commit]? with
  | some record => .ok record
  | none => .error (.notFound ("Commit " ++ HashId.toHex commit))

/-- The parents `reachable_commits` pushes, the one it pops next in front. -/
def nextCommits (commits : Commits) (commit : HashId) : StorageResult (List HashId) :=
  (loadCommit commits commit).map fun record => record.parents.reverse

/-- Passes the walk can need: one for each root and two for each commit. -/
def walkFuel (commits : Commits) (roots : List HashId) : Nat :=
  roots.length + 2 * commits.size + 1

/-- `reachable_commits`; `none` is the walk that did not end, which `reachableCommits_total`
    excludes. -/
def reachableCommits (commits : Commits) (roots : List HashId) :
    StorageResult (Option (List HashId)) :=
  closure (nextCommits commits) (walkFuel commits roots) [] roots.reverse

/-! ## 4. Garbage collection -/

/-- `list_branches`, `list_tags` and `merge_session_roots`. -/
def gcRoots (store : Store) : List HashId :=
  store.branches.toList.map Prod.snd ++ store.tags.toList.map Prod.snd ++
    (store.sessions.toList.map (fun row => row.2.ours) ++
      store.sessions.toList.map (fun row => row.2.theirs))

def unreachableCommits (store : Store) : StorageResult (List HashId) := do
  match ← reachableCommits store.commits (gcRoots store) with
  | some reachable => .ok (store.commits.keys.filter fun commit => commit ∉ reachable)
  | none => .ok []

/-- `collect_garbage`, as far as commits go; the number of deleted commits. -/
def collectGarbage : StorageTx Nat := do
  let unreachable ← reading unreachableCommits
  writing fun store => { store with commits := unreachable.foldl ExtTreeMap.erase store.commits }
  pure unreachable.length

/-! ## 5. What each write leaves behind -/

/-- The commit has a row. -/
def Stored (commits : Commits) (commit : HashId) : Prop := ∃ row, commits[commit]? = some row

variable {store store' : Store} {commit target : HashId} {u : Unit} {branch name : Text}
  {r : Option HashId}

theorem stored_of_exists (h : commitExists store commit = true) : Stored store.commits commit := by
  unfold commitExists at h
  rw [← ExtTreeMap.isSome_getElem?_eq_contains] at h
  exact Option.isSome_iff_exists.mp h

theorem requireCommit_ok (h : requireCommit commit store = .ok u) :
    Stored store.commits commit := by
  unfold requireCommit at h
  split at h
  · rename_i he
    exact stored_of_exists he
  · cases h

theorem branchHead_ok :
    branchHead branch store = .ok commit ↔ store.branches[branch]? = some commit := by
  unfold branchHead
  cases store.branches[branch]? with
  | none => simp
  | some head => simp

theorem createBranchRef_ok {source : HashId}
    (h : createBranchRef name source store = .ok u store') : Stored store.commits source ∧
      store' = { store with branches := store.branches.insert name source } := by
  unfold createBranchRef at h
  simp only [tx_bind_ok, lifted_ok, reading_ok] at h
  obtain ⟨_, _, ⟨_, rfl⟩, _, _, ⟨hs, rfl⟩, h⟩ := h
  unfold insertBranch at h
  split at h
  · cases h
  · cases h
    exact ⟨requireCommit_ok hs, rfl⟩

theorem deleteBranchRef_ok {active : Text} (h : deleteBranchRef active name store = .ok r store') :
    store' = { store with branches := store.branches.erase name } := by
  unfold deleteBranchRef at h
  rw [tx_bind_ok] at h
  obtain ⟨_, _, hv, h⟩ := h
  obtain ⟨_, rfl⟩ := lifted_ok.mp hv
  split at h
  · cases (lifted_ok.mp h).1
  · split at h
    · cases (lifted_ok.mp h).1
    · obtain ⟨_, _, ⟨_, rfl⟩, _, _, rfl, _, rfl⟩ := h
      rfl

theorem compareAndMoveBranch_ok {expectedHead : HashId}
    (h : compareAndMoveBranch branch expectedHead commit store = .ok u store') :
    store.branches[branch]? = some expectedHead ∧
      store' = { store with branches := store.branches.insert branch commit } := by
  unfold compareAndMoveBranch at h
  split at h
  · rename_i he
    cases h
    exact ⟨he, rfl⟩
  · cases h

/-- **A moved reference points to a commit that exists.** -/
theorem moveBranchRef_ok {expected : Option HashId}
    (h : moveBranchRef name expected target store = .ok r store') : Stored store.commits target ∧
      ((r = none ∧ store.branches[name]? = none ∧ store' = store) ∨
        ∃ previous, r = some previous ∧ store.branches[name]? = some previous ∧
          (expected = none ∨ expected = some previous) ∧
          store' = { store with branches := store.branches.insert name target }) := by
  unfold moveBranchRef at h
  simp only [tx_bind_ok, lifted_ok, reading_ok] at h
  obtain ⟨_, _, ⟨_, rfl⟩, _, _, ⟨hs, rfl⟩, r', _, ⟨hr, rfl⟩, h⟩ := h
  refine ⟨requireCommit_ok hs, ?_⟩
  have hr' : store.branches[name]? = r' := by injection hr
  cases r' with
  | none =>
    obtain ⟨rfl, rfl⟩ := tx_pure_ok.mp h
    exact .inl ⟨rfl, hr', rfl⟩
  | some previous =>
    simp only at h
    split at h
    · rename_i hexp
      simp only [tx_bind_ok, tx_pure_ok] at h
      obtain ⟨_, _, hmove, rfl, rfl⟩ := h
      exact .inr ⟨previous, rfl, hr', hexp, (compareAndMoveBranch_ok hmove).2⟩
    · cases (lifted_ok.mp h).1

theorem createTag_ok (h : createTag name target store = .ok u store') :
    Stored store.commits target ∧
      store' = { store with tags := store.tags.insert name target } := by
  unfold createTag at h
  simp only [tx_bind_ok, lifted_ok, reading_ok] at h
  obtain ⟨_, _, ⟨_, rfl⟩, _, _, ⟨hs, rfl⟩, h⟩ := h
  unfold insertTag at h
  split at h
  · cases h
  · cases h
    exact ⟨requireCommit_ok hs, rfl⟩

theorem moveTag_ok (h : moveTag name target store = .ok r store') : Stored store.commits target ∧
      (store' = store ∨ store' = { store with tags := store.tags.insert name target }) := by
  unfold moveTag at h
  simp only [tx_bind_ok, lifted_ok, reading_ok] at h
  obtain ⟨_, _, ⟨_, rfl⟩, _, _, ⟨hs, rfl⟩, r', _, ⟨_, rfl⟩, h⟩ := h
  refine ⟨requireCommit_ok hs, ?_⟩
  cases r' with
  | none =>
    obtain ⟨rfl, rfl⟩ := tx_pure_ok.mp h
    exact .inl rfl
  | some previous =>
    obtain ⟨_, _, rfl, _, rfl⟩ := h
    exact .inr rfl

theorem deleteTag_ok (h : deleteTag name store = .ok r store') :
    store' = { store with tags := store.tags.erase name } := by
  unfold deleteTag at h
  simp only [tx_bind_ok, lifted_ok, reading_ok, writing_ok, tx_pure_ok] at h
  obtain ⟨_, _, ⟨_, rfl⟩, _, _, ⟨_, rfl⟩, _, _, rfl, _, rfl⟩ := h
  rfl

theorem insertCommit_ok {id : HashId} {row : CommitRecord}
    (h : insertCommit id row store = .ok u store') :
    store' = { store with commits := store'.commits } ∧
      ∀ c, store'.commits[c]? = if c = id then some row else store.commits[c]? := by
  unfold insertCommit at h
  split at h
  · cases h
    exact ⟨rfl, fun c => lookup_insert store.commits id c row⟩
  · rename_i actual hactual
    split at h
    · rename_i heq
      cases h
      refine ⟨rfl, fun c => ?_⟩
      split
      · rename_i hc
        rw [hc, hactual, heq]
      · rfl
    · cases h

section Commit

variable {L : Type} {content : CommitContent L}

/-- What a commit does to the tables: its branch moves to it, and its row is added. -/
structure Committed (content : CommitContent L) (branch : Text) (expectedHead : HashId)
    (secondParent : Option HashId) (layer : L) (metadata : CommitMetadata) (store store' : Store)
    (commit : HashId) : Prop where
  identity : commit =
    content.commitHash (commitRow content expectedHead secondParent layer metadata)
  head : store.branches[branch]? = some expectedHead
  parent2 : ∀ parent, secondParent = some parent → Stored store.commits parent
  commits : ∀ c, store'.commits[c]? =
    if c = commit then some (commitRow content expectedHead secondParent layer metadata)
    else store.commits[c]?
  branches : store'.branches = store.branches.insert branch commit
  tags : store'.tags = store.tags
  sessions : store'.sessions = store.sessions
  resolutions : store'.resolutions = store.resolutions

/-- **What a commit leaves behind.** -/
theorem commitChange_ok {expectedHead : HashId} {secondParent : Option HashId} {layer : L}
    {metadata : CommitMetadata}
    (h : commitChange content branch expectedHead secondParent layer metadata store =
      .ok commit store') :
    Committed content branch expectedHead secondParent layer metadata store store' commit := by
  unfold commitChange at h
  rw [tx_bind_ok] at h
  obtain ⟨head, _, hread, h⟩ := h
  obtain ⟨hhead, rfl⟩ := reading_ok.mp hread
  have hbranch := branchHead_ok.mp hhead
  split at h
  · rename_i he
    subst he
    simp only [tx_bind_ok, reading_ok, tx_pure_ok] at h
    obtain ⟨_, _, ⟨hsecond, rfl⟩, _, _, ⟨_, rfl⟩, _, mid, hinsert, _, _, hmove, rfl, rfl⟩ := h
    have hparent : ∀ parent, secondParent = some parent → Stored store.commits parent := by
      rintro parent rfl
      exact requireCommit_ok hsecond
    obtain ⟨hmid, hcommits⟩ := insertCommit_ok hinsert
    obtain ⟨_, rfl⟩ := compareAndMoveBranch_ok hmove
    rw [hmid]
    exact ⟨rfl, hbranch, hparent, hcommits, rfl, rfl, rfl, rfl⟩
  · cases (lifted_ok.mp h).1

end Commit

/-! ## 6. The history walk and garbage collection -/

theorem nextCommits_ok {commits : Commits} {next : List HashId}
    (h : nextCommits commits commit = .ok next) :
    ∃ record, commits[commit]? = some record ∧ next = record.parents.reverse := by
  unfold nextCommits loadCommit at h
  cases hc : commits[commit]? with
  | none =>
    rw [hc] at h
    cases h
  | some record =>
    rw [hc] at h
    cases h
    exact ⟨record, rfl, rfl⟩

theorem parents_length (record : CommitRecord) : record.parents.length ≤ 2 := by
  unfold CommitRecord.parents
  exact List.length_filterMap_le id [record.parent1, record.parent2]

/-- **The walk over the history ends.** -/
theorem reachableCommits_total (commits : Commits) (roots : List HashId) :
    reachableCommits commits roots ≠ .ok none := by
  unfold reachableCommits
  have hsucc : ∀ commit next, nextCommits commits commit = .ok next →
      commit ∈ commits.keys ∧ next.length ≤ 2 := by
    intro commit next h
    obtain ⟨record, hrecord, rfl⟩ := nextCommits_ok h
    refine ⟨?_, ?_⟩
    · rw [ExtTreeMap.mem_keys]
      exact ExtTreeMap.mem_iff_isSome_getElem?.mpr (Option.isSome_iff_exists.mpr ⟨_, hrecord⟩)
    · rw [List.length_reverse]
      exact parents_length record
  refine closure_enough hsucc ?_
  have hcount : ∀ p : HashId → Bool, commits.keys.countP p ≤ commits.size := fun p => by
    rw [← ExtTreeMap.length_keys]
    exact List.countP_le_length
  unfold closureWork walkFuel
  rw [List.length_reverse]
  exact Nat.lt_succ_of_le (Nat.add_le_add_left (Nat.mul_le_mul_left 2 (hcount _)) _)

theorem getElem?_foldl_erase {α β : Type} [Ord α] [TransOrd α] [LawfulEqOrd α] [DecidableEq α] :
    ∀ (keys : List α) (m : ExtTreeMap α β) (k : α),
      (keys.foldl ExtTreeMap.erase m)[k]? = if k ∈ keys then none else m[k]?
  | [], m, k => by simp
  | a :: keys, m, k => by
    rw [List.foldl_cons, getElem?_foldl_erase keys (m.erase a) k, lookup_erase]
    by_cases hk : k ∈ keys
    · simp [hk]
    · by_cases ha : k = a
      · simp [ha]
      · simp [hk, ha]

/-- What garbage collection leaves: whole histories, all roots, and all that is no commit. -/
structure Collected (store store' : Store) : Prop where
  rest : store' = { store with commits := store'.commits }
  kept : ∀ (c : HashId) (row : CommitRecord), store'.commits[c]? = some row →
    store.commits[c]? = some row
  roots : ∀ c ∈ gcRoots store, ∀ row : CommitRecord, store.commits[c]? = some row →
    store'.commits[c]? = some row
  closed : ∀ (c : HashId) (row : CommitRecord) (p : HashId), store'.commits[c]? = some row →
    p ∈ row.parents → ∀ row' : CommitRecord, store.commits[p]? = some row' →
    store'.commits[p]? = some row'

/-- **Garbage collection keeps the roots and parents.** -/
theorem collectGarbage_keeps {store store' : Store} {n : Nat}
    (h : collectGarbage store = .ok n store') : Collected store store' := by
  unfold collectGarbage at h
  simp only [tx_bind_ok, reading_ok, writing_ok, tx_pure_ok] at h
  obtain ⟨unreachable, _, ⟨hu, rfl⟩, _, _, rfl, _, rfl⟩ := h
  unfold unreachableCommits at hu
  obtain ⟨found, hfound, hu⟩ := bind_eq_ok.mp hu
  cases found with
  | none => exact absurd hfound (reachableCommits_total _ _)
  | some reachable =>
    cases hu
    unfold reachableCommits at hfound
    -- a commit with a row stays exactly when the walk met it
    have hlook : ∀ c row, store.commits[c]? = some row →
        ((store.commits.keys.filter fun commit => commit ∉ reachable).foldl ExtTreeMap.erase
          store.commits)[c]? = if c ∈ reachable then some row else none := by
      intro c row hc
      have hkey : c ∈ store.commits.keys := by
        rw [ExtTreeMap.mem_keys]
        exact ExtTreeMap.mem_iff_isSome_getElem?.mpr (Option.isSome_iff_exists.mpr ⟨_, hc⟩)
      rw [getElem?_foldl_erase, hc]
      by_cases hr : c ∈ reachable
      · simp [hr]
      · simp [hr, hkey]
    have hkept : ∀ c row,
        ((store.commits.keys.filter fun commit => commit ∉ reachable).foldl ExtTreeMap.erase
          store.commits)[c]? = some row → store.commits[c]? = some row ∧ c ∈ reachable := by
      intro c row hc
      have hsome : store.commits[c]? = some row := by
        rw [getElem?_foldl_erase] at hc
        split at hc
        · cases hc
        · exact hc
      refine ⟨hsome, ?_⟩
      rw [hlook c row hsome] at hc
      split at hc
      · assumption
      · cases hc
    refine ⟨rfl, fun c row hc => (hkept c row hc).1, fun c hc row hrow => ?_,
      fun c row p hc hp row' hp' => ?_⟩
    · have hmem : c ∈ reachable := closure_frontier hfound c (List.mem_reverse.mpr hc)
      show (List.foldl _ _ _)[c]? = _
      rw [hlook c row hrow, if_pos hmem]
    · obtain ⟨hrow, hmem⟩ := hkept c row hc
      obtain ⟨next, hnext, hin⟩ := closure_closed hfound c hmem List.not_mem_nil
      obtain ⟨record, hrecord, rfl⟩ := nextCommits_ok hnext
      rw [hrow] at hrecord
      cases hrecord
      have hp' := hin p (List.mem_reverse.mpr hp)
      show (List.foldl _ _ _)[p]? = _
      rw [hlook p row' ‹_›, if_pos hp']

end Lithograph.Version
