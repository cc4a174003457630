/-
  File:      Lithograph/Version/MergeProcedures.lean
  Subject:   The merge procedures on sessions: start, resolve, finalize, abort
             (`query/version/merge/procedures.rs`, `query/version/merge.rs`).

  The conflict scan, the candidate layer, the access and schema checks and the texts of resolutions
  are one parameter (`MergeGraph`); the topology of a merge is computed here.
-/
import Mathlib.Data.List.Infix
import Lithograph.Version.Session
import Lithograph.Query.Error

namespace Lithograph.Version

open Std Library Storage Query

/-- A query function on the tables. -/
abbrev QueryTx (α : Type) := EStateM QueryError Store α

/-- `?` on a storage write inside a query function. -/
def storageTx {α : Type} (x : StorageTx α) : QueryTx α := mapErr (fun _ => QueryError.ofStorage) x

/-! ## 1. Descriptors -/

/-- `branch/<name>`, `tag/<name>` or `commit/<id>`. -/
inductive Descriptor where
  | branch (name : Text)
  | tag (name : Text)
  | commit (id : HashId)

def branchNotFound (name : Text) : QueryError :=
  ⟨.branchNotFound, "Branch branch/" ++ String.ofList name ++ " was not found"⟩

def tagNotFound (name : Text) : QueryError :=
  ⟨.tagNotFound, "Tag tag/" ++ String.ofList name ++ " was not found"⟩

def validateRefInput (name : Text) : QueryResult Unit :=
  match validateRefName name with
  | .ok u => .ok u
  | .error (.corrupt message) => .error (.invalidArgument message)
  | .error e => .error (.ofStorage e)

/-- `resolve_descriptor`, on a descriptor that was split at its first slash. -/
def resolveDescriptor (descriptor : Descriptor) (store : Store) : QueryResult HashId :=
  match descriptor with
  | .branch name => do
    validateRefInput name
    match store.branches[name]? with
    | some commit => .ok commit
    | none => .error (branchNotFound name)
  | .tag name => do
    validateRefInput name
    match store.tags[name]? with
    | some commit => .ok commit
    | none => .error (tagNotFound name)
  | .commit id =>
    if commitExists store id then .ok id
    else .error ⟨.versionNotFound, "Version was not found: Commit " ++ HashId.toHex id⟩

/-! ## 2. Resolutions and conflicts -/

/-- A stored resolution: one side, or a value of its own (`none` is `null`). -/
inductive Resolution (V : Type) where
  | ours
  | theirs
  | value (v : Option V)

abbrev Resolutions (V : Type) := ExtTreeMap HashId (Resolution V)

/-- `MergeConflict`, less its identity, which is the key it is found under. -/
structure MergeConflict (V : Type) where
  slot : Text
  base : Option V
  ours : Option V
  theirs : Option V
  resolution : Option (Resolution V)

inductive MergeStatus where
  | upToDate
  | fastForward
  | ready
  | conflicted
  deriving DecidableEq

structure MergeComputation (G : Type) where
  status : MergeStatus
  unresolved : Nat
  candidate : Option G

/-- **What the merge procedures take from the graph layer**: values `V`, snapshots `G`, prepared
    layers with their schema `L`, and the options of a query `O`. -/
structure MergeGraph (V G L O : Type) extends CommitContent L where
  /-- `load_state`. -/
  loadState : Commits → HashId → QueryResult G
  /-- The sparse or the general scan: unresolved conflicts, and the candidate of the general one. -/
  conflictScan : Commits → HashId → HashId → Resolutions V → QueryResult (Nat × Option G)
  /-- `conflicts_for_ids` past its shortcuts. -/
  scanConflicts : Commits → HashId → HashId → Resolutions V → List HashId →
    QueryResult (ExtTreeMap HashId (MergeConflict V))
  /-- `ready_finalize_action`. -/
  readyLayer : Commits → HashId → HashId → Resolutions V → Option G → QueryResult L
  /-- `Value::Boolean(true)`. -/
  isTrue : V → Bool
  /-- `same_value_controlled`. -/
  sameValue : V → V → Bool
  encodeResolution : Resolution V → QueryResult Text
  decodeResolution : Text → QueryResult (Resolution V)
  checkResolutionSlot : O → Text → Option V → Option V → QueryResult Unit
  checkCommits : O → Commits → HashId → HashId → QueryResult Unit
  /-- The access, schema and index checks of `apply_merge_action`. -/
  checkMerge : O → Commits → HashId → L → QueryResult Unit

/-- `same_optional_value_controlled`. -/
def sameOptional {α : Type} (same : α → α → Bool) : Option α → Option α → Bool
  | some a, some b => same a b
  | none, none => true
  | _, _ => false

variable {id : Text} {store store' : Store} {session : MergeSessionRecord} {expectedRevision : Int}

section Graph

variable {V G L O : Type} (graph : MergeGraph V G L O)

/-- Canonical equality of stored resolutions. -/
def sameResolution : Resolution V → Resolution V → Bool
  | .ours, .ours => true
  | .theirs, .theirs => true
  | .value a, .value b => sameOptional graph.sameValue a b
  | _, _ => false

def resolveValue (conflict : MergeConflict V) : Option (Resolution V) → Option V
  | none => conflict.ours
  | some .ours => conflict.ours
  | some .theirs => conflict.theirs
  | some (.value v) => v

/-- `validate_explicit_value`; `none` is `null`. -/
def validateExplicitValue (slot : Text) (value : Option V) : QueryResult Unit :=
  let flag := value.all graph.isTrue
  if "node/".toList <+: slot ∧ ¬ "/property/".toList <:+: slot ∧ ¬ "/label/".toList <:+: slot ∧
      flag = false then
    .error (.invalidArgument "Node existence resolution must be true or null")
  else if "/label/".toList <:+: slot ∧ flag = false then
    .error (.invalidArgument "Label resolution must be true or null")
  else .ok ()

/-- One item of the `resolutions` argument. -/
structure ResolutionItem (V : Type) where
  conflictId : HashId
  choice : Text
  /-- `value`, where the item has one; the inner `none` is `null`. -/
  value : Option (Option V)

def normalizeResolution (slot : Text) (item : ResolutionItem V) : QueryResult (Resolution V) :=
  if item.choice = "ours".toList ∨ item.choice = "theirs".toList then
    if item.value.isSome then
      .error (.invalidArgument "ours/theirs resolution cannot contain value")
    else .ok (if item.choice = "ours".toList then .ours else .theirs)
  else if item.choice = "value".toList then
    match item.value with
    | none => .error (.invalidArgument "value resolution requires value")
    | some value => do
      validateExplicitValue graph slot value
      .ok (.value value)
  else .error (.invalidArgument "resolution choice must be ours, theirs, or value")

def resolutionIds (items : List (ResolutionItem V)) : QueryResult (List HashId) :=
  items.foldlM (fun ids item => do
    refuseWhen (ids.contains item.conflictId)
      (.invalidArgument "duplicate conflictId in resolutions")
    .ok (ids ++ [item.conflictId])) []

def resolutionItems (items : List (ResolutionItem V))
    (conflicts : ExtTreeMap HashId (MergeConflict V)) : QueryResult (Resolutions V) :=
  items.foldlM (fun result item => do
    refuseWhen (result.contains item.conflictId)
      (.invalidArgument "duplicate conflictId in resolutions")
    match conflicts[item.conflictId]? with
    | none => .error (.invalidArgument "unknown conflictId")
    | some conflict => do
      let normalized ← normalizeResolution graph conflict.slot item
      .ok (result.insert item.conflictId normalized)) ∅

def checkResolutionAccess (options : O) (known : ExtTreeMap HashId (MergeConflict V))
    (incoming : Resolutions V) : QueryResult Unit :=
  known.foldlM (fun _ id conflict => graph.checkResolutionSlot options conflict.slot conflict.ours
    (resolveValue conflict incoming[id]?)) ()

/-- `proposed_resolutions`, and whether one of them differs canonically from what was there. -/
def proposedResolutions (current incoming : Resolutions V) : Resolutions V × Bool :=
  incoming.foldl (fun (current, changed) id resolution =>
    if sameOptional (sameResolution graph) current[id]? (some resolution) then (current, changed)
    else (current.insert id resolution, true)) (current, false)

def encodeIncomingResolutions (incoming : Resolutions V) : QueryResult (ExtTreeMap HashId Text) :=
  incoming.foldlM (fun encoded id resolution => do
    let text ← graph.encodeResolution resolution
    .ok (encoded.insert id text)) ∅

def loadResolutions (session : Text) (store : Store) : QueryResult (Resolutions V) :=
  store.resolutions.foldlM (fun result row text =>
    if row.1 = session then do
      let resolution ← graph.decodeResolution text
      .ok (result.insert row.2 resolution)
    else .ok result) ∅

/-! ## 3. The state of a merge -/

/-- `is_ancestor` (topology.rs), whose walk takes the commits in another order than
    `reachable_commits`. -/
def isAncestor (commits : Commits) (ancestor descendant : HashId) : QueryResult Bool :=
  if ancestor = descendant then .ok true
  else do
    match ← ofStorage (reachableCommits commits [descendant]) with
    | some found => .ok (decide (ancestor ∈ found))
    | none => .ok false

def topologyComputation (commits : Commits) (ours theirs : HashId) :
    QueryResult (Option (MergeComputation G)) := do
  let upToDate ← isAncestor commits theirs ours
  if upToDate then do
    let candidate ← graph.loadState commits ours
    .ok (some ⟨.upToDate, 0, some candidate⟩)
  else do
    let fastForward ← isAncestor commits ours theirs
    if fastForward then do
      let candidate ← graph.loadState commits theirs
      .ok (some ⟨.fastForward, 0, some candidate⟩)
    else .ok none

def computeSummary (commits : Commits) (ours theirs : HashId) (resolutions : Resolutions V) :
    QueryResult (MergeComputation G) := do
  match ← topologyComputation graph commits ours theirs with
  | some computation => .ok computation
  | none => do
    let (unresolved, candidate) ← graph.conflictScan commits ours theirs resolutions
    if unresolved = 0 then .ok ⟨.ready, unresolved, candidate⟩
    else .ok ⟨.conflicted, unresolved, none⟩

def conflictsForIds (commits : Commits) (ours theirs : HashId) (resolutions : Resolutions V)
    (requested : List HashId) : QueryResult (ExtTreeMap HashId (MergeConflict V)) :=
  if requested.isEmpty then .ok ∅
  else do
    match ← topologyComputation graph commits ours theirs with
    | some _ => .ok ∅
    | none => graph.scanConflicts commits ours theirs resolutions requested

/-! ## 4. The procedures -/

def sessionNotFound (id : Text) : QueryError :=
  ⟨.mergeSessionNotFound, "Merge Session " ++ debugText id ++ " was not found"⟩

def sessionChanged (id : Text) : QueryError :=
  ⟨.mergeSessionChanged, "Merge Session " ++ debugText id ++ " revision changed"⟩

def mergeConflict : QueryError := ⟨.mergeConflict, "Merge Session has unresolved conflicts"⟩

def mapStartStorageError : StorageError → QueryError
  | .notFound _ => ⟨.versionNotFound, "a pinned merge Commit no longer exists"⟩
  | .branchHeadMoved =>
    ⟨.branchHeadMoved, "target Branch head moved while starting Merge Session"⟩
  | error => .ofStorage error

def mapSessionCasError (id : Text) (store : Store) : StorageError → QueryError
  | .notFound _ => sessionNotFound id
  | .branchHeadMoved =>
    match store.sessions[id]? with
    | none => sessionNotFound id
    | some _ => sessionChanged id
  | error => .ofStorage error

def outputSession (id : Text) (store : Store) : QueryResult MergeSessionRecord :=
  match store.sessions[id]? with
  | some session => .ok session
  | none => .error (sessionNotFound id)

/-- `integer_arg` for `expectedRevision`. -/
def revisionArg (revision : Int) : QueryResult Unit :=
  refuseWhen (revision ≤ 0) (.invalidArgument "expectedRevision must be a positive Integer")

def ensureRevision (id : Text) (session : MergeSessionRecord) (expected : Int) : QueryResult Unit :=
  refuseWhen (session.revision ≠ expected) (sessionChanged id)

/-- `start`, with the identity drawn for the session and the head pinned when the query began. -/
def mergeStart (id : Text) (now : Int) (source : Descriptor) (expectedHead : Option HashId)
    (branch : Text) (pinnedOurs : HashId) : QueryTx (MergeSessionRecord × MergeComputation G) := do
  let theirs ← reading (resolveDescriptor source)
  let expected ← reading fun store => expectedHead.mapM fun id =>
    resolveDescriptor (.commit id) store
  lifted (refuseWhen (expected.any fun expected => expected ≠ pinnedOurs)
    ⟨.branchHeadMoved, "target Branch head does not match expectedHead"⟩)
  let initial ← reading fun store => computeSummary graph store.commits pinnedOurs theirs ∅
  let session ← mapErr (fun _ => mapStartStorageError)
    (createMergeSession id branch pinnedOurs theirs expected now)
  pure (session, initial)

/-- `resolve` up to the access check: the session, its resolutions, and the incoming ones. -/
def incomingResolutions (options : O) (id : Text) (expectedRevision : Int)
    (items : List (ResolutionItem V)) (store : Store) :
    QueryResult (MergeSessionRecord × Resolutions V × Resolutions V) := do
  revisionArg expectedRevision
  let session ← outputSession id store
  ensureRevision id session expectedRevision
  let current ← loadResolutions graph id store
  let requested ← resolutionIds items
  let known ← conflictsForIds graph store.commits session.ours session.theirs current requested
  let incoming ← resolutionItems graph items known
  checkResolutionAccess graph options known incoming
  .ok (session, current, incoming)

/-- The part of `resolve` that only reads: the encoded replacements, whether they change anything,
    and the state of the merge under them. -/
def prepareResolve (options : O) (id : Text) (expectedRevision : Int)
    (items : List (ResolutionItem V)) (store : Store) :
    QueryResult (ExtTreeMap HashId Text × Bool × MergeComputation G) := do
  let (session, current, incoming) ← incomingResolutions graph options id expectedRevision items
    store
  let (proposed, changed) := proposedResolutions graph current incoming
  let computation ← computeSummary graph store.commits session.ours session.theirs proposed
  let encoded ← encodeIncomingResolutions graph incoming
  .ok (encoded, changed, computation)

/-- `resolve`: the revision the session has afterwards. -/
def mergeResolve (options : O) (id : Text) (expectedRevision : Int)
    (items : List (ResolutionItem V)) : QueryTx (Int × MergeComputation G) := do
  let (encoded, changed, computation) ← reading
    (prepareResolve graph options id expectedRevision items)
  let revision ← mapErr (mapSessionCasError id)
    (updateMergeResolutions id expectedRevision encoded changed)
  pure (revision, computation)

inductive FinalizeAction (L : Type) where
  | upToDate
  | fastForward
  | merge (layer : L)

/-- `finalize_action_for_computation`. -/
def finalizeAction (commits : Commits) (session : MergeSessionRecord)
    (computation : MergeComputation G) (resolutions : Resolutions V) :
    QueryResult (FinalizeAction L) :=
  match computation.status with
  | .upToDate => .ok .upToDate
  | .fastForward => .ok .fastForward
  | .ready => do
    let layer ← graph.readyLayer commits session.ours session.theirs resolutions
      computation.candidate
    .ok (.merge layer)
  | .conflicted => .error mergeConflict

def prepareFinalize (id : Text) (expectedRevision : Int) (store : Store) :
    QueryResult (MergeSessionRecord × FinalizeAction L) := do
  revisionArg expectedRevision
  let session ← outputSession id store
  ensureRevision id session expectedRevision
  let resolutions ← loadResolutions graph id store
  let computation ← computeSummary graph store.commits session.ours session.theirs resolutions
  refuseWhen (computation.unresolved ≠ 0) mergeConflict
  let action ← finalizeAction graph store.commits session computation resolutions
  .ok (session, action)

def ensureFinalizeBranchHead (session : MergeSessionRecord) (store : Store) : QueryResult Unit :=
  match store.branches[session.targetBranch]? with
  | none => .error (branchNotFound session.targetBranch)
  | some head => refuseWhen (head ≠ session.ours)
      ⟨.branchHeadMoved, "target Branch moved after Merge Session start"⟩

inductive FinalizeStatus where
  | upToDate
  | fastForward
  | merged
  deriving DecidableEq

def applyFinalizeAction (options : O) (metadata : CommitMetadata) (session : MergeSessionRecord)
    (action : FinalizeAction L) : QueryTx (FinalizeStatus × HashId) :=
  match action with
  | .upToDate => pure (.upToDate, session.ours)
  | .fastForward => do
    reading fun store => graph.checkCommits options store.commits session.ours session.theirs
    let _ ← storageTx (moveBranchRef session.targetBranch (some session.ours) session.theirs)
    pure (.fastForward, session.theirs)
  | .merge layer => do
    reading fun store => graph.checkMerge options store.commits session.ours layer
    let commit ← storageTx (commitChange graph.toCommitContent session.targetBranch session.ours
      (some session.theirs) layer metadata)
    pure (.merged, commit)

/-- `finalize`. -/
def mergeFinalize (options : O) (metadata : CommitMetadata) (id : Text) (expectedRevision : Int) :
    QueryTx (FinalizeStatus × HashId) := do
  let (session, action) ← reading (prepareFinalize graph id expectedRevision)
  let _ ← mapErr (mapSessionCasError id) (updateMergeResolutions id expectedRevision ∅ false)
  reading (ensureFinalizeBranchHead session)
  let outcome ← applyFinalizeAction graph options metadata session action
  let found ← mapErr (mapSessionCasError id) (deleteMergeSession id expectedRevision)
  lifted (refuseWhen (!found) (sessionNotFound id))
  pure outcome

/-- `abort`. -/
def mergeAbort (id : Text) (expectedRevision : Int) : QueryTx Unit := do
  lifted (revisionArg expectedRevision)
  let found ← mapErr (mapSessionCasError id) (deleteMergeSession id expectedRevision)
  lifted (refuseWhen (!found) (sessionNotFound id))

/-! ## 5. What an accepted call leaves behind -/

variable {graph}

/-- `ancestor` is `descendant` itself or one of its ancestors. -/
def Ancestor (commits : Commits) (ancestor descendant : HashId) : Prop :=
  Relation.ReflTransGen (fun c p => ∃ row, commits[c]? = some row ∧ p ∈ row.parents) descendant
    ancestor

theorem isAncestor_ok {commits : Commits} {ancestor descendant : HashId}
    (h : isAncestor commits ancestor descendant = .ok true) :
    Ancestor commits ancestor descendant := by
  unfold isAncestor at h
  split at h
  · rename_i he
    subst he
    exact .refl
  · obtain ⟨found, hfound, h⟩ := bind_eq_ok.mp h
    rw [ofStorage_ok] at hfound
    cases found with
    | none => cases h
    | some found =>
      have hmem : ancestor ∈ found := by
        simp only [Except.ok.injEq, decide_eq_true_eq] at h
        exact h
      unfold reachableCommits at hfound
      rcases closure_sound hfound ancestor hmem with hv | ⟨r, hr, hreach⟩
      · exact absurd hv List.not_mem_nil
      · rw [List.reverse_singleton, List.mem_singleton] at hr
        subst hr
        refine Relation.ReflTransGen.mono (fun x y hxy => ?_) _ _ hreach
        obtain ⟨next, hnext, hy⟩ := hxy
        obtain ⟨row, hrow, rfl⟩ := nextCommits_ok hnext
        exact ⟨row, hrow, List.mem_reverse.mp hy⟩

theorem computeSummary_status {commits : Commits} {ours theirs : HashId}
    {resolutions : Resolutions V} {computation : MergeComputation G}
    (h : computeSummary graph commits ours theirs resolutions = .ok computation) :
    (computation.status = .upToDate → Ancestor commits theirs ours) ∧
      (computation.status = .fastForward → Ancestor commits ours theirs) := by
  unfold computeSummary at h
  obtain ⟨topology, htopology, h⟩ := bind_eq_ok.mp h
  cases topology with
  | none =>
    obtain ⟨⟨unresolved, candidate⟩, _, h⟩ := bind_eq_ok.mp h
    simp only at h
    split at h
    · cases h
      exact ⟨(fun e => nomatch e), (fun e => nomatch e)⟩
    · cases h
      exact ⟨(fun e => nomatch e), (fun e => nomatch e)⟩
  | some found =>
    cases h
    unfold topologyComputation at htopology
    obtain ⟨upToDate, hup, htopology⟩ := bind_eq_ok.mp htopology
    cases upToDate with
    | true =>
      obtain ⟨candidate, _, htopology⟩ := bind_eq_ok.mp htopology
      cases htopology
      exact ⟨fun _ => isAncestor_ok hup, (fun e => nomatch e)⟩
    | false =>
      obtain ⟨fastForward, hfast, htopology⟩ := bind_eq_ok.mp htopology
      cases fastForward with
      | true =>
        obtain ⟨candidate, _, htopology⟩ := bind_eq_ok.mp htopology
        cases htopology
        exact ⟨(fun e => nomatch e), fun _ => isAncestor_ok hfast⟩
      | false => cases htopology

theorem outputSession_ok :
    outputSession id store = .ok session ↔ store.sessions[id]? = some session := by
  unfold outputSession
  cases store.sessions[id]? with
  | none => simp
  | some found => simp

theorem ensureRevision_ok {expected : Int} {u : Unit} :
    ensureRevision id session expected = .ok u ↔ session.revision = expected := by
  unfold ensureRevision
  simp

/-- **A started session is new** and pins two commits that exist. -/
theorem mergeStart_ok {now : Int} {source : Descriptor} {expectedHead : Option HashId}
    {branch : Text} {pinnedOurs : HashId} {result : MergeSessionRecord × MergeComputation G}
    (h : mergeStart graph id now source expectedHead branch pinnedOurs store = .ok result store') :
    ∃ theirs, store.sessions[id]? = none ∧ Stored store.commits pinnedOurs ∧
      Stored store.commits theirs ∧ result.1 = ⟨branch, pinnedOurs, theirs, 1, now⟩ ∧
      store' = { store with sessions := store.sessions.insert id result.1 } := by
  unfold mergeStart at h
  simp only [tx_bind_ok, reading_ok, lifted_ok, mapErr_ok, tx_pure_ok] at h
  obtain ⟨theirs, _, ⟨_, rfl⟩, _, _, ⟨_, rfl⟩, _, _, ⟨_, rfl⟩, _, _, ⟨_, rfl⟩, session, _, hcreate,
    rfl, rfl⟩ := h
  obtain ⟨hnew, hours, htheirs, hrecord, hstore⟩ := createMergeSession_ok hcreate
  exact ⟨theirs, hnew, hours, htheirs, hrecord, hstore⟩

/-- Some incoming resolution differs canonically from what the session had. -/
def Changes (graph : MergeGraph V G L O) (current incoming : Resolutions V) : Prop :=
  ∃ (conflict : HashId) (resolution : Resolution V), incoming[conflict]? = some resolution ∧
    sameOptional (sameResolution graph) current[conflict]? (some resolution) = false

theorem proposed_flag (before : Resolutions V) : ∀ (l : List (HashId × Resolution V)),
    l.Pairwise (fun a b => a.1 ≠ b.1) → ∀ (acc : Resolutions V) (flag : Bool),
    (∀ row ∈ l, acc[row.1]? = before[row.1]?) →
    ((l.foldl (fun (state : Resolutions V × Bool) row =>
      if sameOptional (sameResolution graph) state.1[row.1]? (some row.2) then (state.1, state.2)
      else (state.1.insert row.1 row.2, true)) (acc, flag)).2 = true ↔
        flag = true ∨ ∃ row ∈ l,
          sameOptional (sameResolution graph) before[row.1]? (some row.2) = false)
  | [], _, acc, flag, _ => by simp
  | row :: l, hl, acc, flag, hacc => by
    obtain ⟨hne, hl⟩ := List.pairwise_cons.mp hl
    have hrow := hacc row (.head _)
    have hrest : ∀ r ∈ l, acc[r.1]? = before[r.1]? := fun r hr =>
      hacc r (.tail _ hr)
    rw [List.foldl_cons]
    cases hsame : sameOptional (sameResolution graph) acc[row.1]? (some row.2) with
    | true =>
      rw [if_pos rfl, proposed_flag before l hl acc flag hrest]
      simp only [List.mem_cons, exists_eq_or_imp, ← hrow, hsame, Bool.true_eq_false, false_or]
    | false =>
      rw [if_neg (by simp), proposed_flag before l hl _ true fun r hr => ?_]
      · simp only [List.mem_cons, exists_eq_or_imp, ← hrow, hsame, true_or, or_true]
      · rw [lookup_insert, if_neg fun e => hne r hr e.symm]
        exact hrest r hr

/-- **The flag says whether some resolution differs.** -/
theorem proposedResolutions_changed (current incoming : Resolutions V) :
    (proposedResolutions graph current incoming).2 = true ↔ Changes graph current incoming := by
  unfold proposedResolutions
  rw [ExtTreeMap.foldl_eq_foldl_toList]
  refine (proposed_flag current incoming.toList (toList_keys_ne incoming) current false
    fun _ _ => rfl).trans ?_
  constructor
  · rintro (h | ⟨row, hrow, hdiff⟩)
    · cases h
    · exact ⟨row.1, row.2, lookup_of_mem hrow, hdiff⟩
  · rintro ⟨conflict, resolution, hin, hdiff⟩
    exact .inr ⟨(conflict, resolution), mem_of_lookup hin, hdiff⟩

theorem encodeIncomingResolutions_ok {incoming : Resolutions V}
    {encoded : ExtTreeMap HashId Text} (h : encodeIncomingResolutions graph incoming = .ok encoded)
    (conflict : HashId) :
    (∀ resolution, incoming[conflict]? = some resolution →
      ∃ text, graph.encodeResolution resolution = .ok text ∧ encoded[conflict]? = some text) ∧
    (incoming[conflict]? = none → encoded[conflict]? = none) := by
  have hstep : ∀ (s : ExtTreeMap HashId Text) (k : HashId) (v : Resolution V)
      (s' : ExtTreeMap HashId Text), incoming[k]? = some v →
      (do let text ← graph.encodeResolution v
          .ok (s.insert k text) : QueryResult (ExtTreeMap HashId Text)) = .ok s' →
      ∀ j : HashId, s'[j]?.map (fun t => (.ok t : QueryResult Text)) =
        if j = k then some (graph.encodeResolution v) else s[j]?.map fun t => .ok t := by
    intro s k v s' _ hs j
    obtain ⟨text, htext, hs⟩ := bind_eq_ok.mp hs
    cases hs
    rw [lookup_insert, htext]
    by_cases hj : j = k
    · rw [if_pos hj, if_pos hj]
      rfl
    · rw [if_neg hj, if_neg hj]
  unfold encodeIncomingResolutions at h
  have hlook := foldlM_lookup
    (fun (s : ExtTreeMap HashId Text) k => s[k]?.map fun t => (.ok t : QueryResult Text))
    (fun _ resolution _ => some (graph.encodeResolution resolution)) hstep h conflict
  constructor
  · intro resolution hin
    rw [hin] at hlook
    cases hc : encoded[conflict]? with
    | none =>
      rw [hc] at hlook
      cases hlook
    | some text =>
      rw [hc] at hlook
      refine ⟨text, ?_, rfl⟩
      injection hlook with hlook
      exact hlook.symm
  · intro hin
    rw [hin] at hlook
    cases hc : encoded[conflict]? with
    | none => rfl
    | some text =>
      rw [hc] at hlook
      simp at hlook

variable {options : O} {items : List (ResolutionItem V)}

theorem incomingResolutions_ok {current incoming : Resolutions V}
    (h : incomingResolutions graph options id expectedRevision items store =
      .ok (session, current, incoming)) :
    store.sessions[id]? = some session ∧ session.revision = expectedRevision := by
  unfold incomingResolutions at h
  simp only [bind_eq_ok] at h
  obtain ⟨_, _, session', hsession, _, hrevision, _, _, _, _, _, _, _, _, _, _, h⟩ := h
  cases h
  exact ⟨outputSession_ok.mp hsession, ensureRevision_ok.mp hrevision⟩

theorem prepareResolve_ok {prepared : ExtTreeMap HashId Text × Bool × MergeComputation G}
    (h : prepareResolve graph options id expectedRevision items store = .ok prepared) :
    ∃ session current incoming,
      incomingResolutions graph options id expectedRevision items store =
        .ok (session, current, incoming) ∧
      encodeIncomingResolutions graph incoming = .ok prepared.1 ∧
      prepared.2.1 = (proposedResolutions graph current incoming).2 := by
  unfold prepareResolve at h
  simp only [bind_eq_ok] at h
  obtain ⟨⟨session, current, incoming⟩, hincoming, computation, _, encoded, hencoded, h⟩ := h
  cases h
  exact ⟨session, current, incoming, hincoming, hencoded, rfl⟩

/-- **An accepted `resolve`** writes the prepared rows and raises the revision when something
changed. -/
theorem mergeResolve_ok {result : Int × MergeComputation G}
    (h : mergeResolve graph options id expectedRevision items store = .ok result store') :
    ∃ session encoded changed, store.sessions[id]? = some session ∧
      session.revision = expectedRevision ∧
      prepareResolve graph options id expectedRevision items store =
        .ok (encoded, changed, result.2) ∧
      result.1 = (if changed then session.revision + 1 else session.revision) ∧
      (∀ id', store'.sessions[id']? =
        if id' = id then some { session with revision := result.1 } else store.sessions[id']?) ∧
      store' = { store with
        sessions := store'.sessions
        resolutions := upsertResolutions id encoded store.resolutions } := by
  unfold mergeResolve at h
  rw [tx_bind_ok] at h
  obtain ⟨⟨encoded, changed, computation⟩, _, hread, h⟩ := h
  obtain ⟨hprepared, rfl⟩ := reading_ok.mp hread
  simp only [tx_bind_ok, mapErr_ok, tx_pure_ok] at h
  obtain ⟨revision, _, hupdate, rfl, rfl⟩ := h
  obtain ⟨session, hrow, hrevision, hresult, hsessions, hrest⟩ := updateMergeResolutions_ok hupdate
  exact ⟨session, encoded, changed, hrow, hrevision, hprepared, hresult, hsessions, hrest⟩

/-- What a finalization does to commits and branches, action by action. -/
inductive Applied (graph : MergeGraph V G L O) (metadata : CommitMetadata)
    (session : MergeSessionRecord) (store : Store) : FinalizeStatus × HashId → Store → Prop
  | upToDate (ancestor : Ancestor store.commits session.theirs session.ours) :
      Applied graph metadata session store (.upToDate, session.ours) store
  | fastForward (ancestor : Ancestor store.commits session.ours session.theirs)
      (stored : Stored store.commits session.theirs) :
      Applied graph metadata session store (.fastForward, session.theirs)
        { store with branches := store.branches.insert session.targetBranch session.theirs }
  | merged {layer : L} {commit : HashId} {store' : Store}
      (committed : Committed graph.toCommitContent session.targetBranch session.ours
        (some session.theirs) layer metadata store store' commit) :
      Applied graph metadata session store (.merged, commit) store'

/-- **An accepted `finalize`** found its session and the pinned branch, and closes the session. -/
theorem mergeFinalize_ok {metadata : CommitMetadata} {result : FinalizeStatus × HashId}
    (h : mergeFinalize graph options metadata id expectedRevision store = .ok result store') :
    ∃ session mid, store.sessions[id]? = some session ∧ session.revision = expectedRevision ∧
      store.branches[session.targetBranch]? = some session.ours ∧
      Applied graph metadata session store result mid ∧
      store' = deleteResolutions id { mid with sessions := mid.sessions.erase id } := by
  unfold mergeFinalize at h
  rw [tx_bind_ok] at h
  obtain ⟨⟨session, action⟩, _, hread, h⟩ := h
  obtain ⟨hprepared, rfl⟩ := reading_ok.mp hread
  simp only [tx_bind_ok, mapErr_ok, reading_ok, lifted_ok, refuseWhen_ok, tx_pure_ok] at h
  obtain ⟨_, cas, hcas, _, _, ⟨hhead, rfl⟩, outcome, mid, hact, found, _, hdelete, _, _,
    ⟨hfound, rfl⟩, rfl, rfl⟩ := h
  -- the empty update leaves the store as it was
  have hsame : cas = store := by
    unfold updateMergeResolutions at hcas
    simp only [tx_bind_ok, reading_ok, writing_ok] at hcas
    obtain ⟨_, _, ⟨_, rfl⟩, _, _, rfl, hcas⟩ := hcas
    obtain ⟨_, rfl⟩ := tx_pure_ok.mp hcas
    rfl
  subst hsame
  unfold prepareFinalize at hprepared
  simp only [bind_eq_ok] at hprepared
  obtain ⟨_, _, session', hsession, _, hrevision, resolutions, _, computation, hcomputation, _, _,
    action', haction, hprepared⟩ := hprepared
  cases hprepared
  have hrow := outputSession_ok.mp hsession
  have hstatus := computeSummary_status hcomputation
  have hbranch : cas.branches[session.targetBranch]? = some session.ours := by
    unfold ensureFinalizeBranchHead at hhead
    split at hhead
    · cases hhead
    · rename_i head hb
      have : head = session.ours := by simpa using hhead
      rw [hb, this]
  have happlied : Applied graph metadata session cas outcome mid := by
    unfold finalizeAction at haction
    cases hst : computation.status with
    | upToDate =>
      rw [hst] at haction
      cases haction
      obtain ⟨rfl, rfl⟩ := tx_pure_ok.mp hact
      exact .upToDate (hstatus.1 hst)
    | fastForward =>
      rw [hst] at haction
      cases haction
      unfold applyFinalizeAction storageTx at hact
      simp only [tx_bind_ok, reading_ok, mapErr_ok, tx_pure_ok] at hact
      obtain ⟨_, _, ⟨_, rfl⟩, moved, _, hmove, rfl, rfl⟩ := hact
      obtain ⟨hstored, ⟨_, hnone, _⟩ | ⟨_, _, _, _, rfl⟩⟩ := moveBranchRef_ok hmove
      · rw [hbranch] at hnone
        cases hnone
      · exact .fastForward (hstatus.2 hst) hstored
    | ready =>
      rw [hst] at haction
      obtain ⟨layer, _, haction⟩ := bind_eq_ok.mp haction
      cases haction
      unfold applyFinalizeAction storageTx at hact
      simp only [tx_bind_ok, reading_ok, mapErr_ok, tx_pure_ok] at hact
      obtain ⟨_, _, ⟨_, rfl⟩, commit, _, hcommit, rfl, rfl⟩ := hact
      exact .merged (commitChange_ok hcommit)
    | conflicted =>
      rw [hst] at haction
      cases haction
  refine ⟨session, mid, hrow, ensureRevision_ok.mp hrevision, hbranch, happlied, ?_⟩
  rcases deleteMergeSession_ok hdelete with ⟨rfl, _, _⟩ | ⟨_, _, _, _, rfl⟩
  · cases hfound
  · rfl

/-- **An accepted `abort`** found its session and closes it, and nothing else. -/
theorem mergeAbort_ok {u : Unit} (h : mergeAbort id expectedRevision store = .ok u store') :
    ∃ session, store.sessions[id]? = some session ∧ session.revision = expectedRevision ∧
      store' = deleteResolutions id { store with sessions := store.sessions.erase id } := by
  unfold mergeAbort at h
  simp only [tx_bind_ok, mapErr_ok, lifted_ok, refuseWhen_ok] at h
  obtain ⟨_, _, ⟨_, rfl⟩, found, _, hdelete, hfound, rfl⟩ := h
  rcases deleteMergeSession_ok hdelete with ⟨rfl, _, _⟩ | ⟨session, _, hrow, hrevision, rfl⟩
  · cases hfound
  · exact ⟨session, hrow, hrevision, rfl⟩

end Graph

end Lithograph.Version
