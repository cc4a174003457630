/-
  File:      Lithograph/Version/Protocol.lean
  Subject:   Merge sessions under any interleaving of calls.

  A call is a merge procedure, a write of another client on branches and tags, or garbage
  collection. It runs under a savepoint, as one atomic step.

  * **`mergeSession_protocol`**: the safety of the protocol.
-/
import Lithograph.Version.MergeProcedures

namespace Lithograph.Version

open Std Library Storage Query

/-! ## 1. Calls -/

/-- The calls clients make. `V`, `L` and `O` are values, prepared layers and query options. -/
inductive Call (V L O : Type) where
  | mergeStart (id : Text) (now : Int) (source : Descriptor) (expectedHead : Option HashId)
      (branch : Text) (pinnedOurs : HashId)
  | mergeGet (id : Text)
  /-- `conflicts`, with the revision of the cursor where there is one. -/
  | mergeConflicts (id : Text) (cursorRevision : Option Int) (requested : List HashId)
  /-- Reading the candidate of a session (`resolve_candidate_context`). -/
  | mergeCandidate (id : Text) (revision : Int)
  | mergeResolve (options : O) (id : Text) (expectedRevision : Int)
      (items : List (ResolutionItem V))
  | mergeFinalize (options : O) (metadata : CommitMetadata) (id : Text) (expectedRevision : Int)
  | mergeAbort (id : Text) (expectedRevision : Int)
  /-- One commit of a write query, `commit.create`, `patch.apply`, `revert`, or of an explicit
      transaction as a whole. -/
  | commit (branch : Text) (expectedHead : HashId) (layer : L) (metadata : CommitMetadata)
  /-- `reset` (no layers), `squash` (one) and `rebase` (one for each replayed commit). -/
  | rewrite (branch : Text) (head onto : HashId) (layers : List (L × CommitMetadata))
  | branchCreate (name : Text) (source : HashId)
  | branchDelete (active name : Text)
  | tagCreate (name : Text) (target : HashId)
  | tagMove (name : Text) (target : HashId)
  | tagDelete (name : Text)
  | gc

/-- What a call returns, as far as a client needs it to go on. -/
inductive Reply where
  | session (id : Text) (revision : Int) (status : MergeStatus) (unresolved : Nat)
  | finalized (status : FinalizeStatus) (commit : HashId)
  | aborted (id : Text)
  | commit (id : HashId)
  | collected (commits : Nat)
  | done

variable {metadata : CommitMetadata} {store store' : Store} {reply : Reply}
  {session : MergeSessionRecord} {id : Text} {revision : Int}

section Protocol

variable {V G L O : Type} (graph : MergeGraph V G L O)

/-- `get`, and the part of `resolve_candidate_context` before the candidate layer. -/
def mergeGet (id : Text) (store : Store) :
    QueryResult (MergeSessionRecord × MergeComputation G) := do
  let session ← outputSession id store
  let resolutions ← loadResolutions graph id store
  let computation ← computeSummary graph store.commits session.ours session.theirs resolutions
  .ok (session, computation)

/-- `conflicts`: a cursor of another revision is refused. -/
def mergeConflicts (id : Text) (cursorRevision : Option Int) (requested : List HashId)
    (store : Store) : QueryResult (ExtTreeMap HashId (MergeConflict V)) := do
  let session ← outputSession id store
  refuseWhen (cursorRevision.any fun revision => revision ≠ session.revision) (sessionChanged id)
  let resolutions ← loadResolutions graph id store
  conflictsForIds graph store.commits session.ours session.theirs resolutions requested

/-- `require_candidate_session` and `candidate_context_from_computation`. -/
def mergeCandidate (id : Text) (revision : Int) (store : Store) :
    QueryResult (MergeSessionRecord × MergeComputation G) := do
  let session ← outputSession id store
  ensureRevision id session revision
  let (_, computation) ← mergeGet graph id store
  refuseWhen (computation.unresolved ≠ 0) mergeConflict
  .ok (session, computation)

/-- `move_target_branch`, then one commit for each layer. -/
def rewriteBranch (branch : Text) (head onto : HashId) (layers : List (L × CommitMetadata)) :
    QueryTx HashId := do
  let moved ← storageTx (moveBranchRef branch (some head) onto)
  lifted (refuseWhen moved.isNone (branchNotFound branch))
  layers.foldlM (fun parent layer => storageTx
    (commitChange graph.toCommitContent branch parent none layer.1 layer.2)) onto

/-- One call. -/
def exec : Call V L O → QueryTx Reply
  | .mergeStart id now source expectedHead branch pinnedOurs => do
    let (session, computation) ← mergeStart graph id now source expectedHead branch pinnedOurs
    pure (.session id session.revision computation.status computation.unresolved)
  | .mergeGet id => do
    let (session, computation) ← reading (mergeGet graph id)
    pure (.session id session.revision computation.status computation.unresolved)
  | .mergeConflicts id cursorRevision requested => do
    let _ ← reading (mergeConflicts graph id cursorRevision requested)
    pure .done
  | .mergeCandidate id revision => do
    let (session, computation) ← reading (mergeCandidate graph id revision)
    pure (.session id session.revision computation.status computation.unresolved)
  | .mergeResolve options id expectedRevision items => do
    let (revision, computation) ← mergeResolve graph options id expectedRevision items
    pure (.session id revision computation.status computation.unresolved)
  | .mergeFinalize options metadata id expectedRevision => do
    let (status, commit) ← mergeFinalize graph options metadata id expectedRevision
    pure (.finalized status commit)
  | .mergeAbort id expectedRevision => do
    mergeAbort id expectedRevision
    pure (.aborted id)
  | .commit branch expectedHead layer metadata => do
    let commit ← storageTx
      (commitChange graph.toCommitContent branch expectedHead none layer metadata)
    pure (.commit commit)
  | .rewrite branch head onto layers => do
    let commit ← rewriteBranch graph branch head onto layers
    pure (.commit commit)
  | .branchCreate name source => do
    storageTx (createBranchRef name source)
    pure .done
  | .branchDelete active name => do
    let previous ← storageTx (deleteBranchRef active name)
    lifted (refuseWhen previous.isNone (branchNotFound name))
    pure .done
  | .tagCreate name target => do
    storageTx (createTag name target)
    pure .done
  | .tagMove name target => do
    let previous ← storageTx (moveTag name target)
    lifted (refuseWhen previous.isNone (tagNotFound name))
    pure .done
  | .tagDelete name => do
    let previous ← storageTx (deleteTag name)
    lifted (refuseWhen previous.isNone (tagNotFound name))
    pure .done
  | .gc => do
    let commits ← storageTx collectGarbage
    pure (.collected commits)

/-- A call with what it returned. -/
structure Event (V L O : Type) where
  call : Call V L O
  outcome : QueryResult Reply

/-- One step of the system: a call under its savepoint. -/
def Step (store : Store) (event : Event V L O) (store' : Store) : Prop :=
  savepoint (exec graph event.call) store = (event.outcome, store')

/-- The root commit of a fresh database. -/
def rootRecord (layerHash schemaHash : HashId) : CommitRecord :=
  { parent1 := none, parent2 := none, layerHash, schemaHash, metadata := ⟨none, none, 0⟩ }

/-- `initialize_root`: the root commit, and `main` at it. -/
def rootStore (layerHash schemaHash : HashId) : Store :=
  let root := rootRecord layerHash schemaHash
  { commits := (∅ : Commits).insert (graph.commitHash root) root
    branches := (∅ : ExtTreeMap Text HashId).insert "main".toList (graph.commitHash root)
    tags := ∅
    sessions := ∅
    resolutions := ∅ }

/-- A run, its steps labelled with the calls and what they returned. -/
abbrev Run : Store → List (Event V L O) → Store → Prop := Trace (Step graph)

/-- Calls one after the other, with what they returned and the store they leave. -/
def runCalls : Store → List (Call V L O) → List (Event V L O) × Store
  | store, [] => ([], store)
  | store, call :: calls =>
    let first := savepoint (exec graph call) store
    let rest := runCalls first.2 calls
    (⟨call, first.1⟩ :: rest.1, rest.2)

theorem run_runCalls : ∀ (calls : List (Call V L O)) (store : Store),
    Run graph store (runCalls graph store calls).1 (runCalls graph store calls).2
  | [], store => .nil store
  | call :: calls, store => .cons rfl (run_runCalls calls (savepoint (exec graph call) store).2)

/-! ## 2. The tables hang together -/

variable {graph}

theorem coherent_root (layerHash schemaHash : HashId) :
    Coherent (rootStore graph layerHash schemaHash) := by
  have hroot : Stored (rootStore graph layerHash schemaHash).commits
      (graph.commitHash (rootRecord layerHash schemaHash)) := by
    refine ⟨rootRecord layerHash schemaHash, ?_⟩
    show ((∅ : Commits).insert _ _)[_]? = _
    rw [lookup_insert, if_pos rfl]
  refine ⟨?_, ?_, ?_, ?_, ?_⟩
  · intro c row hrow p hp
    have hrow' : ((∅ : Commits).insert (graph.commitHash (rootRecord layerHash schemaHash))
      (rootRecord layerHash schemaHash))[c]? = some row := hrow
    rw [lookup_insert] at hrow'
    split at hrow'
    · cases hrow'
      cases hp
    · simp at hrow'
  · intro name c hb
    have hb' : ((∅ : ExtTreeMap Text HashId).insert "main".toList
      (graph.commitHash (rootRecord layerHash schemaHash)))[name]? = some c := hb
    rw [lookup_insert] at hb'
    split at hb'
    · cases hb'
      exact hroot
    · simp at hb'
  · intro name c ht
    simp [rootStore] at ht
  · intro id record hs
    simp [rootStore] at hs
  · intro id conflict t ht
    simp [rootStore] at ht

/-- Writes of other clients: they keep the tables together and touch no session. -/
def ClientWrite (store store' : Store) : Prop :=
  (Coherent store → Coherent store') ∧ store'.sessions = store.sessions ∧
    store'.resolutions = store.resolutions

theorem clientWrite_refl (store : Store) : ClientWrite store store := ⟨id, rfl, rfl⟩

theorem clientWrite_trans {s t u : Store} (h : ClientWrite s t) (h' : ClientWrite t u) :
    ClientWrite s u :=
  ⟨fun hc => h'.1 (h.1 hc), h'.2.1.trans h.2.1, h'.2.2.trans h.2.2⟩

theorem clientWrite_commit {branch : Text} {expectedHead commit : HashId} {layer : L}
    (h : commitChange graph.toCommitContent branch expectedHead none layer metadata store =
      .ok commit store') : ClientWrite store store' := by
  have hc := commitChange_ok h
  exact ⟨fun hi => coherent_committed hi hc, hc.sessions, hc.resolutions⟩

theorem clientWrite_branches {branches : ExtTreeMap Text HashId}
    (h : ∀ (name : Text) (c : HashId), branches[name]? = some c →
      store.branches[name]? = some c ∨ Stored store.commits c) :
    ClientWrite store { store with branches := branches } :=
  ⟨fun hc => coherent_refs hc rfl rfl rfl h fun _ _ ht => .inl ht, rfl, rfl⟩

theorem clientWrite_tags {tags : ExtTreeMap Text HashId}
    (h : ∀ (name : Text) (c : HashId), tags[name]? = some c →
      store.tags[name]? = some c ∨ Stored store.commits c) :
    ClientWrite store { store with tags := tags } :=
  ⟨fun hc => coherent_refs hc rfl rfl rfl (fun _ _ hb => .inl hb) h, rfl, rfl⟩

theorem clientWrite_rewrite {branch : Text} {head onto result : HashId}
    {layers : List (L × CommitMetadata)}
    (h : rewriteBranch graph branch head onto layers store = .ok result store') :
    ClientWrite store store' := by
  unfold rewriteBranch storageTx at h
  simp only [tx_bind_ok, mapErr_ok, lifted_ok] at h
  obtain ⟨moved, mid, hmove, _, _, ⟨_, rfl⟩, hfold⟩ := h
  have hmid : ClientWrite store mid := by
    obtain ⟨hstored, ⟨_, _, rfl⟩ | ⟨_, _, _, _, rfl⟩⟩ := moveBranchRef_ok hmove
    · exact clientWrite_refl _
    · exact clientWrite_branches fun name c hb => ref_insert hstored hb
  refine tx_foldlM_inv (fun _ s => ClientWrite store s) (fun parent layer s commit s' hs hstep => ?_)
    layers onto mid result store' hmid hfold
  rw [mapErr_ok] at hstep
  exact clientWrite_trans hs (clientWrite_commit hstep)

/-- The calls that are no merge procedure. -/
def Call.isClientWrite : Call V L O → Bool
  | .commit .. | .rewrite .. | .branchCreate .. | .branchDelete .. | .tagCreate .. | .tagMove ..
  | .tagDelete .. | .gc => true
  | _ => false

/-- The merge procedures that only read. -/
def Call.isRead : Call V L O → Bool
  | .mergeGet .. | .mergeConflicts .. | .mergeCandidate .. => true
  | _ => false

theorem clientWrite_gc {n : Nat} (h : collectGarbage store = .ok n store') :
    ClientWrite store store' := by
  have hcol := collectGarbage_keeps h
  refine ⟨fun hc => coherent_collected hc hcol, ?_, ?_⟩
  · rw [hcol.rest]
  · rw [hcol.rest]

/-- **What other clients do touches no session.** -/
theorem clientWrite_exec {call : Call V L O} (hcall : call.isClientWrite = true)
    (h : exec graph call store = .ok reply store') : ClientWrite store store' := by
  cases call with
  | mergeStart | mergeGet | mergeConflicts | mergeCandidate | mergeResolve | mergeFinalize
  | mergeAbort => cases hcall
  | commit branch expectedHead layer metadata =>
    unfold exec storageTx at h
    simp only [tx_bind_ok, mapErr_ok, tx_pure_ok] at h
    obtain ⟨_, _, hcommit, _, rfl⟩ := h
    exact clientWrite_commit hcommit
  | rewrite branch head onto layers =>
    unfold exec at h
    simp only [tx_bind_ok, tx_pure_ok] at h
    obtain ⟨_, _, hrewrite, _, rfl⟩ := h
    exact clientWrite_rewrite hrewrite
  | branchCreate name source =>
    unfold exec storageTx at h
    simp only [tx_bind_ok, mapErr_ok, tx_pure_ok] at h
    obtain ⟨_, _, hcreate, _, rfl⟩ := h
    obtain ⟨hstored, rfl⟩ := createBranchRef_ok hcreate
    exact clientWrite_branches fun name c hb => ref_insert hstored hb
  | branchDelete active name =>
    unfold exec storageTx at h
    simp only [tx_bind_ok, mapErr_ok, lifted_ok, tx_pure_ok] at h
    obtain ⟨_, _, hdelete, _, _, ⟨_, rfl⟩, _, rfl⟩ := h
    rw [deleteBranchRef_ok hdelete]
    exact clientWrite_branches fun name c hb => ref_erase hb
  | tagCreate name target =>
    unfold exec storageTx at h
    simp only [tx_bind_ok, mapErr_ok, tx_pure_ok] at h
    obtain ⟨_, _, hcreate, _, rfl⟩ := h
    obtain ⟨hstored, rfl⟩ := createTag_ok hcreate
    exact clientWrite_tags fun name c ht => ref_insert hstored ht
  | tagMove name target =>
    unfold exec storageTx at h
    simp only [tx_bind_ok, mapErr_ok, lifted_ok, tx_pure_ok] at h
    obtain ⟨_, _, hmove, _, _, ⟨_, rfl⟩, _, rfl⟩ := h
    obtain ⟨hstored, rfl | rfl⟩ := moveTag_ok hmove
    · exact clientWrite_refl _
    · exact clientWrite_tags fun name c ht => ref_insert hstored ht
  | tagDelete name =>
    unfold exec storageTx at h
    simp only [tx_bind_ok, mapErr_ok, lifted_ok, tx_pure_ok] at h
    obtain ⟨_, _, hdelete, _, _, ⟨_, rfl⟩, _, rfl⟩ := h
    rw [deleteTag_ok hdelete]
    exact clientWrite_tags fun name c ht => ref_erase ht
  | gc =>
    unfold exec storageTx at h
    simp only [tx_bind_ok, mapErr_ok, tx_pure_ok] at h
    obtain ⟨_, _, hgc, _, rfl⟩ := h
    exact clientWrite_gc hgc

theorem coherent_applied {mid : Store} {result : FinalizeStatus × HashId}
    (h : Applied graph metadata session store result mid) : ClientWrite store mid := by
  cases h with
  | upToDate _ => exact clientWrite_refl store
  | fastForward _ stored => exact clientWrite_branches fun name c hb => ref_insert stored hb
  | merged committed =>
    exact ⟨fun hi => coherent_committed hi committed, committed.sessions, committed.resolutions⟩

/-- **What the merge procedures do**, one accepted call at a time. -/
inductive MergeEffect (graph : MergeGraph V G L O) (store : Store) :
    Call V L O → Reply → Store → Prop
  | read {call : Call V L O} {reply : Reply} (reads : call.isRead = true) :
      MergeEffect graph store call reply store
  | started {id : Text} {now : Int} {source : Descriptor} {expectedHead : Option HashId}
      {branch : Text} {pinnedOurs theirs : HashId} {status : MergeStatus} {unresolved : Nat}
      (fresh : store.sessions[id]? = none) (ours : Stored store.commits pinnedOurs)
      (other : Stored store.commits theirs) :
      MergeEffect graph store (.mergeStart id now source expectedHead branch pinnedOurs)
        (.session id 1 status unresolved)
        { store with sessions := store.sessions.insert id ⟨branch, pinnedOurs, theirs, 1, now⟩ }
  | resolved {options : O} {id : Text} {items : List (ResolutionItem V)}
      {session : MergeSessionRecord} {encoded : ExtTreeMap HashId Text} {changed : Bool}
      {computation : MergeComputation G} {revision : Int} {store' : Store}
      (row : store.sessions[id]? = some session)
      (prepared : prepareResolve graph options id session.revision items store =
        .ok (encoded, changed, computation))
      (bumped : revision = if changed then session.revision + 1 else session.revision)
      (sessions : ∀ id', store'.sessions[id']? =
        if id' = id then some { session with revision := revision } else store.sessions[id']?)
      (rest : store' = { store with
        sessions := store'.sessions
        resolutions := upsertResolutions id encoded store.resolutions }) :
      MergeEffect graph store (.mergeResolve options id session.revision items)
        (.session id revision computation.status computation.unresolved) store'
  | finalized {options : O} {metadata : CommitMetadata} {id : Text}
      {session : MergeSessionRecord} {mid : Store} {result : FinalizeStatus × HashId}
      (row : store.sessions[id]? = some session)
      (head : store.branches[session.targetBranch]? = some session.ours)
      (applied : Applied graph metadata session store result mid) :
      MergeEffect graph store (.mergeFinalize options metadata id session.revision)
        (.finalized result.1 result.2)
        (deleteResolutions id { mid with sessions := mid.sessions.erase id })
  | aborted {id : Text} {session : MergeSessionRecord} (row : store.sessions[id]? = some session) :
      MergeEffect graph store (.mergeAbort id session.revision) (.aborted id)
        (deleteResolutions id { store with sessions := store.sessions.erase id })

/-- **Every accepted merge procedure has one of these effects.** -/
theorem mergeEffect_exec {call : Call V L O} (hcall : call.isClientWrite = false)
    (h : exec graph call store = .ok reply store') : MergeEffect graph store call reply store' := by
  cases call with
  | commit | rewrite | branchCreate | branchDelete | tagCreate | tagMove | tagDelete | gc =>
    cases hcall
  | mergeStart id now source expectedHead branch pinnedOurs =>
    unfold exec at h
    simp only [tx_bind_ok, tx_pure_ok] at h
    obtain ⟨⟨session, computation⟩, _, hstart, rfl, rfl⟩ := h
    obtain ⟨theirs, hnew, hours, htheirs, hrecord, hstore⟩ := mergeStart_ok hstart
    subst hrecord
    rw [hstore]
    exact .started hnew hours htheirs
  | mergeGet id =>
    unfold exec at h
    simp only [tx_bind_ok, reading_ok, tx_pure_ok] at h
    obtain ⟨_, _, ⟨_, rfl⟩, _, rfl⟩ := h
    exact .read rfl
  | mergeConflicts id cursorRevision requested =>
    unfold exec at h
    simp only [tx_bind_ok, reading_ok, tx_pure_ok] at h
    obtain ⟨_, _, ⟨_, rfl⟩, _, rfl⟩ := h
    exact .read rfl
  | mergeCandidate id revision =>
    unfold exec at h
    simp only [tx_bind_ok, reading_ok, tx_pure_ok] at h
    obtain ⟨_, _, ⟨_, rfl⟩, _, rfl⟩ := h
    exact .read rfl
  | mergeResolve options id expectedRevision items =>
    unfold exec at h
    simp only [tx_bind_ok, tx_pure_ok] at h
    obtain ⟨⟨revision, computation⟩, _, hresolve, rfl, rfl⟩ := h
    obtain ⟨session, encoded, changed, hrow, rfl, hprepared, hbumped, hsessions, hrest⟩ :=
      mergeResolve_ok hresolve
    exact .resolved hrow hprepared hbumped hsessions hrest
  | mergeFinalize options metadata id expectedRevision =>
    unfold exec at h
    simp only [tx_bind_ok, tx_pure_ok] at h
    obtain ⟨result, _, hfinalize, rfl, rfl⟩ := h
    obtain ⟨session, mid, hrow, rfl, hhead, happlied, rfl⟩ := mergeFinalize_ok hfinalize
    exact .finalized hrow hhead happlied
  | mergeAbort id expectedRevision =>
    unfold exec at h
    simp only [tx_bind_ok, tx_pure_ok] at h
    obtain ⟨_, _, habort, rfl, rfl⟩ := h
    obtain ⟨session, hrow, rfl, rfl⟩ := mergeAbort_ok habort
    exact .aborted hrow

variable {event : Event V L O}

/-- **Every step keeps the tables together.** -/
theorem coherent_step (hc : Coherent store)
    (h : Step graph store event store') : Coherent store' := by
  obtain ⟨call, outcome⟩ := event
  cases outcome with
  | error e =>
    rw [savepoint_error h]
    exact hc
  | ok reply =>
    have hexec := savepoint_ok.mp h
    cases hcall : call.isClientWrite with
    | true => exact (clientWrite_exec hcall hexec).1 hc
    | false =>
      cases mergeEffect_exec hcall hexec with
      | read _ => exact hc
      | started _ ours other => exact coherent_opened hc ours other
      | resolved row _ _ sessions rest => exact coherent_resolved hc row sessions rest
      | finalized _ _ applied => exact coherent_closed ((coherent_applied applied).1 hc)
      | aborted _ => exact coherent_closed hc

/-- **So does every run.** -/
theorem coherent_run {events : List (Event V L O)} (hc : Coherent store)
    (h : Run graph store events store') : Coherent store' :=
  trace_inv Coherent (fun _ _ _ hi hst => coherent_step hi hst) h hc

/-! ## 3. One session under one step -/

/-- The session and revision a call names. -/
def Call.carries : Call V L O → Option (Text × Int)
  | .mergeCandidate id revision => some (id, revision)
  | .mergeResolve _ id revision _ => some (id, revision)
  | .mergeFinalize _ _ id revision => some (id, revision)
  | .mergeAbort id revision => some (id, revision)
  | .mergeConflicts id (some revision) _ => some (id, revision)
  | _ => none

def Event.Accepted (event : Event V L O) : Prop := ∃ reply, event.outcome = .ok reply

/-- The event opened the session. -/
def Event.Opens (event : Event V L O) (id : Text) : Prop :=
  (∃ now source expectedHead branch pinnedOurs,
    event.call = .mergeStart id now source expectedHead branch pinnedOurs) ∧ event.Accepted

/-- The event finalized the session. -/
def Event.Finalizes (event : Event V L O) (id : Text) : Prop :=
  (∃ options metadata revision, event.call = .mergeFinalize options metadata id revision) ∧
    event.Accepted

/-- The event aborted the session. -/
def Event.Aborts (event : Event V L O) (id : Text) : Prop :=
  (∃ revision, event.call = .mergeAbort id revision) ∧ event.Accepted

/-- **The event is an accepted `resolve`** of a session that had the resolutions `current` and got
    the resolutions `incoming`. -/
def Event.Resolves (graph : MergeGraph V G L O) (store : Store) (event : Event V L O) (id : Text)
    (current incoming : Resolutions V) : Prop :=
  (∃ options revision items session, event.call = .mergeResolve options id revision items ∧
    incomingResolutions graph options id revision items store =
      .ok (session, current, incoming)) ∧ event.Accepted

/-- What one step does to one open session. -/
inductive SessionStep (graph : MergeGraph V G L O) (store : Store) (event : Event V L O)
    (store' : Store) (id : Text) (session : MergeSessionRecord) : Prop
  | kept (row : store'.sessions[id]? = some session)
      (rows : ∀ c : HashId, store'.resolutions[(id, c)]? = store.resolutions[(id, c)]?)
  | resolved {current incoming : Resolutions V} {revision : Int}
      (event : event.Resolves graph store id current incoming)
      (row : store'.sessions[id]? = some { session with revision := revision })
      (changed : Changes graph current incoming → revision = session.revision + 1)
      (unchanged : ¬ Changes graph current incoming → revision = session.revision)
      (rows : ∀ c : HashId, (∀ resolution, incoming[c]? = some resolution →
          ∃ text, graph.encodeResolution resolution = .ok text ∧
            store'.resolutions[(id, c)]? = some text) ∧
        (incoming[c]? = none → store'.resolutions[(id, c)]? = store.resolutions[(id, c)]?))
  | closed (event : event.Finalizes id ∨ event.Aborts id) (row : store'.sessions[id]? = none)

/-- **An accepted `resolve`, seen from the tables.** -/
theorem resolve_step {options : O} {items : List (ResolutionItem V)}
    (h : Step graph store ⟨.mergeResolve options id revision items, .ok reply⟩ store') :
    ∃ (session : MergeSessionRecord) (current incoming : Resolutions V) (revision' : Int),
      incomingResolutions graph options id revision items store =
        .ok (session, current, incoming) ∧
      store.sessions[id]? = some session ∧
      store'.sessions[id]? = some { session with revision := revision' } ∧
      (Changes graph current incoming → revision' = session.revision + 1) ∧
      (¬ Changes graph current incoming → revision' = session.revision) ∧
      ∀ c : HashId, (∀ resolution, incoming[c]? = some resolution →
          ∃ text, graph.encodeResolution resolution = .ok text ∧
            store'.resolutions[(id, c)]? = some text) ∧
        (incoming[c]? = none → store'.resolutions[(id, c)]? = store.resolutions[(id, c)]?) := by
  have hexec := savepoint_ok.mp h
  unfold exec at hexec
  simp only [tx_bind_ok, tx_pure_ok] at hexec
  obtain ⟨result, _, hresolve, _, rfl⟩ := hexec
  obtain ⟨session, encoded, changed, hrow, _, hprepared, hbumped, hsessions, hrest⟩ :=
    mergeResolve_ok hresolve
  obtain ⟨session', current, incoming, hincoming, hencoded, hflag⟩ := prepareResolve_ok hprepared
  have hsame : session' = session := by
    have e := (incomingResolutions_ok hincoming).1
    rw [hrow] at e
    cases e
    rfl
  subst hsame
  have hiff : (proposedResolutions graph current incoming).2 = true ↔
      Changes graph current incoming := proposedResolutions_changed current incoming
  simp only at hflag
  rw [← hflag] at hiff
  refine ⟨session', current, incoming, result.1, hincoming, hrow, ?_, ?_, ?_, ?_⟩
  · rw [hsessions id, if_pos rfl]
  · intro hc
    rw [hbumped, hiff.mpr hc, if_pos rfl]
  · intro hc
    have hfalse : changed = false := by
      cases changed with
      | false => rfl
      | true => exact absurd (hiff.mp rfl) hc
    rw [hbumped, hfalse]
    rfl
  · intro c
    obtain ⟨hsome, hnone⟩ := encodeIncomingResolutions_ok hencoded c
    rw [hrest]
    show (∀ resolution, _ → ∃ text, _ ∧
      (upsertResolutions id encoded store.resolutions)[(id, c)]? = some text) ∧
      (_ → (upsertResolutions id encoded store.resolutions)[(id, c)]? = _)
    rw [getElem?_upsertResolutions, if_pos rfl]
    constructor
    · intro resolution hin
      obtain ⟨text, htext, he⟩ := hsome resolution hin
      have he' : encoded[c]? = some text := he
      exact ⟨text, htext, by rw [he']; rfl⟩
    · intro hin
      have he' : encoded[c]? = none := hnone hin
      rw [he']
      rfl

/-- **What one step can do to one open session.** -/
theorem session_step (h : Step graph store event store') (hs : store.sessions[id]? = some session) :
    SessionStep graph store event store' id session := by
  obtain ⟨call, outcome⟩ := event
  cases outcome with
  | error e =>
    rw [savepoint_error h]
    exact .kept hs fun _ => rfl
  | ok reply =>
    have hexec := savepoint_ok.mp h
    cases hcall : call.isClientWrite with
    | true =>
      obtain ⟨_, hsessions, hresolutions⟩ := clientWrite_exec hcall hexec
      refine .kept ?_ fun c => ?_
      · rw [hsessions]
        exact hs
      · rw [hresolutions]
    | false =>
      cases mergeEffect_exec hcall hexec with
      | read _ => exact .kept hs fun _ => rfl
      | @started id' _ _ _ _ _ _ _ _ fresh _ _ =>
        refine .kept ?_ fun _ => rfl
        show (store.sessions.insert _ _)[id]? = _
        rw [lookup_insert, if_neg]
        · exact hs
        · rintro rfl
          rw [hs] at fresh
          cases fresh
      | @resolved _ id' _ _ _ _ _ _ _ _ _ _ sessions rest =>
        by_cases hid : id = id'
        · subst hid
          obtain ⟨session₁, current, incoming, revision', hincoming, hs₁, row', changed, unchanged,
            rows⟩ := resolve_step h
          rw [hs] at hs₁
          cases hs₁
          exact .resolved ⟨⟨_, _, _, _, rfl, hincoming⟩, ⟨_, rfl⟩⟩ row' changed unchanged rows
        · refine .kept ?_ fun c => ?_
          · rw [sessions id, if_neg hid]
            exact hs
          · rw [rest]
            show (upsertResolutions _ _ _)[(id, c)]? = _
            rw [getElem?_upsertResolutions, if_neg hid]
      | @finalized _ _ id' session' mid _ row _ applied =>
        obtain ⟨_, hsessions, hresolutions⟩ := coherent_applied applied
        by_cases hid : id = id'
        · subst hid
          refine .closed (.inl ⟨⟨_, _, _, rfl⟩, ⟨_, rfl⟩⟩) ?_
          show (mid.sessions.erase id)[id]? = none
          rw [lookup_erase, if_pos rfl]
        · refine .kept ?_ fun c => ?_
          · show (mid.sessions.erase id')[id]? = _
            rw [lookup_erase, if_neg hid, hsessions]
            exact hs
          · rw [getElem?_deleteResolutions, if_neg hid]
            show mid.resolutions[(id, c)]? = _
            rw [hresolutions]
      | @aborted id' session' row =>
        by_cases hid : id = id'
        · subst hid
          refine .closed (.inr ⟨⟨_, rfl⟩, ⟨_, rfl⟩⟩) ?_
          show (store.sessions.erase id)[id]? = none
          rw [lookup_erase, if_pos rfl]
        · refine .kept ?_ fun c => ?_
          · show (store.sessions.erase id')[id]? = _
            rw [lookup_erase, if_neg hid]
            exact hs
          · rw [getElem?_deleteResolutions, if_neg hid]

theorem absent_step (h : Step graph store event store')
    (hs : store.sessions[id]? = none) (hs' : store'.sessions[id]? ≠ none) : event.Opens id := by
  obtain ⟨call, outcome⟩ := event
  cases outcome with
  | error e =>
    rw [savepoint_error h] at hs'
    exact absurd hs hs'
  | ok reply =>
    have hexec := savepoint_ok.mp h
    cases hcall : call.isClientWrite with
    | true =>
      obtain ⟨_, hsessions, _⟩ := clientWrite_exec hcall hexec
      rw [hsessions] at hs'
      exact absurd hs hs'
    | false =>
      cases mergeEffect_exec hcall hexec with
      | read _ => exact absurd hs hs'
      | @started id' _ _ _ _ _ _ _ _ _ _ _ =>
        by_cases hid : id = id'
        · subst hid
          exact ⟨⟨_, _, _, _, _, rfl⟩, ⟨_, rfl⟩⟩
        · refine absurd ?_ hs'
          show (store.sessions.insert _ _)[id]? = _
          rw [lookup_insert, if_neg hid]
          exact hs
      | @resolved _ id' _ _ _ _ _ _ _ row _ _ sessions _ =>
        have hid : id ≠ id' := by
          rintro rfl
          rw [hs] at row
          cases row
        rw [sessions id, if_neg hid] at hs'
        exact absurd hs hs'
      | @finalized _ _ id' _ mid _ _ _ applied =>
        obtain ⟨_, hsessions, _⟩ := coherent_applied applied
        refine absurd ?_ hs'
        show (mid.sessions.erase id')[id]? = none
        rw [lookup_erase, hsessions, hs]
        split <;> rfl
      | @aborted id' _ _ =>
        refine absurd ?_ hs'
        show (store.sessions.erase id')[id]? = none
        rw [lookup_erase, hs]
        split <;> rfl

/-- **A call at another revision is refused.** -/
theorem stale_refused (h : Step graph store event store')
    (hcall : event.call.carries = some (id, revision)) (hs : store.sessions[id]? = some session)
    (hstale : session.revision ≠ revision) : ∃ error, event.outcome = .error error := by
  obtain ⟨call, outcome⟩ := event
  cases outcome with
  | error e => exact ⟨e, rfl⟩
  | ok reply =>
    have hexec := savepoint_ok.mp h
    -- the session the call found is this one, at the revision the call names
    have hfound : ∀ session', store.sessions[id]? = some session' → session'.revision = revision →
        False := by
      intro session' hs' hrevision
      rw [hs] at hs'
      cases hs'
      exact hstale hrevision
    exfalso
    cases call with
    | commit | rewrite | branchCreate | branchDelete | tagCreate | tagMove | tagDelete | gc
    | mergeStart | mergeGet => cases hcall
    | mergeConflicts id' cursorRevision requested =>
      cases cursorRevision with
      | none => cases hcall
      | some cursor =>
        cases hcall
        unfold exec at hexec
        simp only [tx_bind_ok, reading_ok] at hexec
        obtain ⟨_, _, ⟨hread, rfl⟩, _⟩ := hexec
        unfold mergeConflicts at hread
        simp only [bind_eq_ok, refuseWhen_ok] at hread
        obtain ⟨session', hsession, _, hrevision, _⟩ := hread
        refine hfound session' (outputSession_ok.mp hsession) ?_
        have hcursor : revision = session'.revision := by simpa using hrevision
        exact hcursor.symm
    | mergeCandidate id' revision' =>
      cases hcall
      unfold exec at hexec
      simp only [tx_bind_ok, reading_ok] at hexec
      obtain ⟨_, _, ⟨hread, rfl⟩, _⟩ := hexec
      unfold mergeCandidate at hread
      simp only [bind_eq_ok] at hread
      obtain ⟨session', hsession, _, hrevision, _⟩ := hread
      exact hfound session' (outputSession_ok.mp hsession) (ensureRevision_ok.mp hrevision)
    | mergeResolve options id' revision' items =>
      cases hcall
      unfold exec at hexec
      rw [tx_bind_ok] at hexec
      obtain ⟨_, _, hresolve, _⟩ := hexec
      obtain ⟨session', _, _, hrow, hrevision, _⟩ := mergeResolve_ok hresolve
      exact hfound session' hrow hrevision
    | mergeFinalize options metadata id' revision' =>
      cases hcall
      unfold exec at hexec
      rw [tx_bind_ok] at hexec
      obtain ⟨_, _, hfinalize, _⟩ := hexec
      obtain ⟨session', _, hrow, hrevision, _⟩ := mergeFinalize_ok hfinalize
      exact hfound session' hrow hrevision
    | mergeAbort id' revision' =>
      cases hcall
      unfold exec at hexec
      rw [tx_bind_ok] at hexec
      obtain ⟨_, _, habort, _⟩ := hexec
      obtain ⟨session', hrow, hrevision, _⟩ := mergeAbort_ok habort
      exact hfound session' hrow hrevision

/-- **What a finalization did to the target branch**, by its status: nothing, the move to the
    pinned source commit that has the target in its history, or the move to a new commit whose
    parents are exactly the two pinned commits. -/
def FinalizeMoves (session : MergeSessionRecord) (status : FinalizeStatus) (commit : HashId)
    (store store' : Store) : Prop :=
  match status with
  | .upToDate => commit = session.ours ∧ store'.branches = store.branches ∧
      Ancestor store.commits session.theirs session.ours
  | .fastForward => commit = session.theirs ∧
      store'.branches = store.branches.insert session.targetBranch session.theirs ∧
      Ancestor store.commits session.ours session.theirs
  | .merged => store'.branches = store.branches.insert session.targetBranch commit ∧
      ∃ row, store'.commits[commit]? = some row ∧ row.parent1 = some session.ours ∧
        row.parent2 = some session.theirs

theorem finalize_step {options : O}
    (h : Step graph store ⟨.mergeFinalize options metadata id revision, .ok reply⟩ store') :
    ∃ session status commit, reply = .finalized status commit ∧
      store.sessions[id]? = some session ∧ session.revision = revision ∧
      store.branches[session.targetBranch]? = some session.ours ∧
      FinalizeMoves session status commit store store' ∧ store'.sessions[id]? = none := by
  have hexec := savepoint_ok.mp h
  unfold exec at hexec
  simp only [tx_bind_ok, tx_pure_ok] at hexec
  obtain ⟨result, _, hfinalize, rfl, rfl⟩ := hexec
  obtain ⟨session, mid, hrow, hrevision, hhead, happlied, rfl⟩ := mergeFinalize_ok hfinalize
  refine ⟨session, result.1, result.2, rfl, hrow, hrevision, hhead, ?_, ?_⟩
  · cases happlied with
    | upToDate ancestor => exact ⟨rfl, rfl, ancestor⟩
    | fastForward ancestor _ => exact ⟨rfl, rfl, ancestor⟩
    | @merged layer _ _ committed =>
      refine ⟨committed.branches, commitRow graph.toCommitContent session.ours
        (some session.theirs) layer metadata, ?_, rfl, rfl⟩
      show mid.commits[_]? = _
      rw [committed.commits, if_pos rfl]
  · show (mid.sessions.erase id)[id]? = none
    rw [lookup_erase, if_pos rfl]

/-! ## 4. Safety -/

/-- **One step is safe.** -/
structure StepSafe (graph : MergeGraph V G L O) (store : Store) (event : Event V L O)
    (store' : Store) : Prop where
  /-- A refused call leaves sessions, resolutions, references and commits as they were. -/
  refused : ∀ error, event.outcome = .error error → store' = store
  /-- A call with a stale revision is refused. -/
  stale : ∀ id revision session, event.call.carries = some (id, revision) →
    store.sessions[id]? = some session → session.revision ≠ revision →
    (∃ error, event.outcome = .error error) ∧ store' = store
  /-- A session that stays open keeps all but its revision, which does not go down. -/
  revision : ∀ (id : Text) (session session' : MergeSessionRecord),
    store.sessions[id]? = some session → store'.sessions[id]? = some session' →
    session' = { session with revision := session'.revision } ∧ session.revision ≤ session'.revision
  /-- An accepted change of resolutions raises the revision, an accepted repetition does not, and
      the accepted resolutions are the ones that are stored. -/
  resolved : ∀ id current incoming, event.Resolves graph store id current incoming →
    ∃ session session' : MergeSessionRecord, store.sessions[id]? = some session ∧
      store'.sessions[id]? = some session' ∧
      (Changes graph current incoming → session'.revision = session.revision + 1) ∧
      (¬ Changes graph current incoming → session'.revision = session.revision) ∧
      ∀ (c : HashId) (resolution : Resolution V), incoming[c]? = some resolution →
        ∃ text, graph.encodeResolution resolution = .ok text ∧
          store'.resolutions[(id, c)]? = some text
  /-- A finalization found its session open, at the given revision, and the target branch at the
      pinned commit; it closes the session. -/
  finalized : ∀ options metadata id revision reply,
    event = ⟨.mergeFinalize options metadata id revision, .ok reply⟩ →
    ∃ session status commit, reply = .finalized status commit ∧
      store.sessions[id]? = some session ∧ session.revision = revision ∧
      store.branches[session.targetBranch]? = some session.ours ∧
      FinalizeMoves session status commit store store' ∧ store'.sessions[id]? = none

/-- **A run is safe.** -/
structure RunSafe (graph : MergeGraph V G L O) (store : Store) (events : List (Event V L O))
    (store' : Store) : Prop where
  /-- An open session that nobody finalizes or aborts stays open, and every resolution it has
      stays or was replaced by an accepted `resolve` of the run. -/
  kept : ∀ (id : Text) (session : MergeSessionRecord), store.sessions[id]? = some session →
    (∀ event ∈ events, ¬ (event.Finalizes id ∨ event.Aborts id)) →
    ∃ session' : MergeSessionRecord, store'.sessions[id]? = some session' ∧
      session.revision ≤ session'.revision ∧
      ∀ (c : HashId) (text : Text), store.resolutions[(id, c)]? = some text →
        ∃ text', store'.resolutions[(id, c)]? = some text' ∧
          (text' = text ∨ ∃ event ∈ events, ∃ at_ current incoming resolution,
            event.Resolves graph at_ id current incoming ∧ incoming[c]? = some resolution ∧
            graph.encodeResolution resolution = .ok text')
  /-- Between two finalizations of one identity it was started anew. -/
  once : ∀ (id : Text) (before between after : List (Event V L O)) (first second : Event V L O),
    events = before ++ first :: (between ++ second :: after) → first.Finalizes id →
    second.Finalizes id → ∃ event ∈ between, event.Opens id
  /-- The pinned commits of an open session are there, with all their ancestors. -/
  pinned : ∀ (id : Text) (session : MergeSessionRecord), store'.sessions[id]? = some session →
    ∀ c, Ancestor store'.commits c session.ours ∨ Ancestor store'.commits c session.theirs →
      Stored store'.commits c

/-- **Every step is safe.** -/
theorem stepSafe (h : Step graph store event store') : StepSafe graph store event store' := by
  have hrefused : ∀ error, event.outcome = .error error → store' = store := by
    intro error he
    unfold Step at h
    rw [he] at h
    exact savepoint_error h
  refine ⟨hrefused, ?_, ?_, ?_, ?_⟩
  · intro id revision session hcall hs hstale
    obtain ⟨error, he⟩ := stale_refused h hcall hs hstale
    exact ⟨⟨error, he⟩, hrefused error he⟩
  · intro id session session' hs hs'
    cases session_step h hs with
    | kept row _ =>
      rw [row] at hs'
      cases hs'
      exact ⟨rfl, Int.le_refl _⟩
    | @resolved current incoming revision _ row changed unchanged _ =>
      rw [row] at hs'
      cases hs'
      refine ⟨rfl, ?_⟩
      show session.revision ≤ revision
      by_cases hc : Changes graph current incoming
      · rw [changed hc]
        omega
      · exact Int.le_of_eq (unchanged hc).symm
    | closed _ row =>
      rw [row] at hs'
      cases hs'
  · rintro id current incoming ⟨⟨options, revision, items, session, hcall, hincoming⟩, reply, hout⟩
    obtain ⟨call, outcome⟩ := event
    subst hcall hout
    obtain ⟨session₁, current₁, incoming₁, revision', hincoming₁, hs, hs', changed, unchanged,
      rows⟩ := resolve_step h
    rw [hincoming] at hincoming₁
    cases hincoming₁
    exact ⟨session, _, hs, hs', changed, unchanged, fun c => (rows c).1⟩
  · rintro options metadata id revision reply rfl
    exact finalize_step h

/-- An open session nobody closes stays open. -/
theorem run_kept {events : List (Event V L O)} (h : Run graph store events store')
    (hopen : ∀ event ∈ events, ¬ (event.Finalizes id ∨ event.Aborts id)) :
    ∀ session : MergeSessionRecord, store.sessions[id]? = some session →
    ∃ session' : MergeSessionRecord, store'.sessions[id]? = some session' ∧
      session.revision ≤ session'.revision ∧
      ∀ (c : HashId) (text : Text), store.resolutions[(id, c)]? = some text →
        ∃ text', store'.resolutions[(id, c)]? = some text' ∧
          (text' = text ∨ ∃ event ∈ events, ∃ at_ current incoming resolution,
            event.Resolves graph at_ id current incoming ∧ incoming[c]? = some resolution ∧
            graph.encodeResolution resolution = .ok text') := by
  induction h with
  | nil s =>
    intro session hs
    exact ⟨session, hs, Int.le_refl _, fun c text ht => ⟨text, ht, .inl rfl⟩⟩
  | @cons s t u event events hst _ ih =>
    intro session hs
    have hrest : ∀ e ∈ events, ¬ (e.Finalizes id ∨ e.Aborts id) := fun e he =>
      hopen e (.tail _ he)
    -- what the first step leaves of the session, and of one of its resolutions
    have hfirst : ∃ session₁ : MergeSessionRecord, t.sessions[id]? = some session₁ ∧
        session.revision ≤ session₁.revision ∧
        ∀ (c : HashId) (text : Text), s.resolutions[(id, c)]? = some text →
          ∃ text₁, t.resolutions[(id, c)]? = some text₁ ∧
            (text₁ = text ∨ ∃ current incoming resolution,
              event.Resolves graph s id current incoming ∧ incoming[c]? = some resolution ∧
              graph.encodeResolution resolution = .ok text₁) := by
      have hsafe := stepSafe hst
      cases session_step hst hs with
      | kept row rows =>
        refine ⟨session, row, Int.le_refl _, fun c text ht => ⟨text, ?_, .inl rfl⟩⟩
        rw [rows c]
        exact ht
      | @resolved current incoming revision resolves row _ _ rows =>
        refine ⟨_, row, (hsafe.revision id session _ hs row).2, fun c text ht => ?_⟩
        cases hin : incoming[c]? with
        | none => exact ⟨text, by rw [(rows c).2 hin]; exact ht, .inl rfl⟩
        | some resolution =>
          obtain ⟨text₁, hencode, hrow⟩ := (rows c).1 resolution hin
          exact ⟨text₁, hrow, .inr ⟨current, incoming, resolution, resolves, hin, hencode⟩⟩
      | closed closes _ => exact absurd closes (hopen event (.head _))
    obtain ⟨session₁, hs₁, hle₁, hrows₁⟩ := hfirst
    obtain ⟨session', hs', hle', hrows'⟩ := ih hrest session₁ hs₁
    refine ⟨session', hs', by omega, fun c text ht => ?_⟩
    obtain ⟨text₁, ht₁, hwhy₁⟩ := hrows₁ c text ht
    obtain ⟨text', ht', hwhy'⟩ := hrows' c text₁ ht₁
    refine ⟨text', ht', ?_⟩
    rcases hwhy' with rfl | ⟨e, he, hwrote⟩
    · rcases hwhy₁ with rfl | ⟨current, incoming, resolution, hwrote⟩
      · exact .inl rfl
      · exact .inr ⟨event, .head _, s, current, incoming, resolution, hwrote⟩
    · exact .inr ⟨e, .tail _ he, hwrote⟩

theorem run_once {before between after : List (Event V L O)} {first second : Event V L O}
    (h : Run graph store (before ++ first :: (between ++ second :: after)) store')
    (hfirst : first.Finalizes id) (hsecond : second.Finalizes id) :
    ∃ event ∈ between, event.Opens id := by
  obtain ⟨s, _, h⟩ := trace_append.mp h
  cases h with
  | @cons _ t _ _ _ hst h =>
    obtain ⟨u, hbetween, h⟩ := trace_append.mp h
    cases h with
    | @cons _ v _ _ _ hst' _ =>
      -- the session is gone after the first one and there before the second
      have hgone : t.sessions[id]? = none := by
        obtain ⟨call, outcome⟩ := first
        obtain ⟨⟨options, metadata, revision, rfl⟩, reply, rfl⟩ := hfirst
        obtain ⟨_, _, _, _, _, _, _, _, hclosed⟩ := finalize_step hst
        exact hclosed
      have hthere : ¬ u.sessions[id]? = none := by
        obtain ⟨call, outcome⟩ := second
        obtain ⟨⟨options, metadata, revision, rfl⟩, reply, rfl⟩ := hsecond
        obtain ⟨session, _, _, _, hrow, _⟩ := finalize_step hst'
        rw [hrow]
        exact fun e => nomatch e
      obtain ⟨event, hevent, w, w', hw, hstep, hw'⟩ :=
        trace_between (fun s : Store => s.sessions[id]? = none) hbetween hgone hthere
      exact ⟨event, hevent, absent_step hstep hw hw'⟩

theorem stored_ancestor (hc : Coherent store) {c d : HashId} (h : Ancestor store.commits c d)
    (hd : Stored store.commits d) : Stored store.commits c := by
  induction h with
  | refl => exact hd
  | tail _ hstep _ =>
    obtain ⟨row, hrow, hp⟩ := hstep
    exact hc.parents _ row hrow _ hp

/-- **Merge Session protocol safety.** After any run from a fresh database every step is safe and
    every further run is safe. -/
theorem mergeSession_protocol (graph : MergeGraph V G L O) (layerHash schemaHash : HashId)
    {events : List (Event V L O)} {store : Store}
    (h : Run graph (rootStore graph layerHash schemaHash) events store) :
    (∀ event store', Step graph store event store' → StepSafe graph store event store') ∧
      ∀ events' store', Run graph store events' store' → RunSafe graph store events' store' := by
  refine ⟨fun event store' hst => stepSafe hst, fun events' store' hrun => ⟨?_, ?_, ?_⟩⟩
  · intro id session hs hopen
    exact run_kept hrun hopen session hs
  · rintro id before between after first second rfl hfirst hsecond
    exact run_once hrun hfirst hsecond
  · intro id session hs c hancestor
    have hc : Coherent store' := coherent_run (coherent_run (coherent_root _ _) h) hrun
    obtain ⟨hours, htheirs⟩ := hc.pins id session hs
    rcases hancestor with ha | ha
    · exact stored_ancestor hc ha hours
    · exact stored_ancestor hc ha htheirs

end Protocol

/-! ## 5. Two runs -/

/-- A graph in which no slot ever conflicts; a layer is a number, and a commit is named by it. -/
def quietGraph : MergeGraph Unit Unit Nat Unit where
  commitHash row := row.layerHash
  layerHash layer := [UInt8.ofNat layer]
  schemaHash _ := [0]
  validateCandidateLayer _ _ _ := .ok ()
  loadState _ _ := .ok ()
  conflictScan _ _ _ _ := .ok (0, some ())
  scanConflicts _ _ _ _ _ := .ok ∅
  readyLayer _ _ _ _ _ := .ok 9
  isTrue _ := false
  sameValue _ _ := true
  encodeResolution _ := .ok []
  decodeResolution _ := .ok .ours
  checkResolutionSlot _ _ _ _ := .ok ()
  checkCommits _ _ _ _ := .ok ()
  checkMerge _ _ _ _ := .ok ()

def quietRoot : Store := rootStore quietGraph [0] [0]

def quietMetadata : CommitMetadata := ⟨none, none, 1⟩

/-- Two branches from the root, a merge of the second into the first, garbage collection while the
    session is open. -/
def divergedCalls : List (Call Unit Nat Unit) :=
  [.branchCreate "dev".toList [0],
   .commit "main".toList [0] 1 quietMetadata,
   .commit "dev".toList [0] 2 quietMetadata,
   .mergeStart "s".toList 5 (.branch "dev".toList) none "main".toList [1],
   .branchDelete "main".toList "dev".toList,
   .gc,
   .mergeFinalize () quietMetadata "s".toList 2,
   .mergeFinalize () quietMetadata "s".toList 1]

theorem mergeSession_protocol_diverged :
    let run := runCalls quietGraph quietRoot divergedCalls
    run.2.branches["main".toList]? = some [9] ∧
      ((∀ event store', Step quietGraph run.2 event store' →
          StepSafe quietGraph run.2 event store') ∧
        ∀ events' store', Run quietGraph run.2 events' store' →
          RunSafe quietGraph run.2 events' store') :=
  ⟨by decide, mergeSession_protocol quietGraph [0] [0] (run_runCalls quietGraph divergedCalls _)⟩

/-- A branch behind its source: nothing was committed on `main` since `dev` left it. -/
def behindCalls : List (Call Unit Nat Unit) :=
  [.branchCreate "dev".toList [0],
   .commit "dev".toList [0] 2 quietMetadata,
   .mergeStart "s".toList 5 (.branch "dev".toList) none "main".toList [0]]

/-- **A finalization need not give the target branch a commit with the two pinned parents**: a
    target behind its source is fast forwarded to the pinned source commit itself. -/
theorem fastForward_moves_to_theirs :
    ¬ ∀ (graph : MergeGraph Unit Unit Nat Unit) (events : List (Event Unit Nat Unit))
      (store store' : Store) (metadata : CommitMetadata) (id : Text) (revision : Int)
      (reply : Reply) (session : MergeSessionRecord) (head : HashId) (row : CommitRecord),
      Run graph (rootStore graph [0] [0]) events store →
      Step graph store ⟨.mergeFinalize () metadata id revision, .ok reply⟩ store' →
      store.sessions[id]? = some session →
      store'.branches[session.targetBranch]? = some head → head ≠ session.ours →
      store'.commits[head]? = some row →
      row.parent1 = some session.ours ∧ row.parent2 = some session.theirs := by
  intro h
  have hparents := h quietGraph _ _
    (savepoint (exec quietGraph (.mergeFinalize () quietMetadata "s".toList 1))
      (runCalls quietGraph quietRoot behindCalls).2).2
    quietMetadata "s".toList 1 (.finalized .fastForward [2])
    ⟨"main".toList, [0], [2], 1, 5⟩ [2] ⟨some [0], none, [2], [0], quietMetadata⟩
    (run_runCalls quietGraph behindCalls quietRoot) rfl (by decide) (by decide) (by decide)
    (by decide)
  exact nomatch hparents.2

end Lithograph.Version
