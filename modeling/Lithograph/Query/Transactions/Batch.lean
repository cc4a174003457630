/-
  File:      Lithograph/Query/Transactions/Batch.lean
  Subject:   What one batch does to the branch and which rows it gives.

  * **`executeBatch_ends`**: one batch, reported or passed on.
-/
import Lithograph.Library.Batches
import Lithograph.Query.Transactions.Executors

namespace Lithograph.Query.Transactions

open Std Library Storage Version
open Cypher (Value)
open Mutation (saturatingSucc)
open Version.Repository (Linked Installed FirstParentPath)

/-! ## 1. The account of a batch -/

/-- What a batch came to: its columns and rows, whether the call ended with it, and its commit or
    error. -/
structure BatchResult where
  columns : List Text
  rows : List Row
  broke : Bool
  outcome : QueryResult HashId

/-- The status reported for a batch. -/
def batchStatus (id : Nat) : QueryResult HashId → Value
  | .ok _ => transactionStatus true true (some (transactionIdText id)) none
  | .error e => transactionStatus true false (some (transactionIdText id)) (some e.message.toList)

section Account

variable {E C : Type} (call : TransactionCall E C)

/-- What the batch on these rows comes to: its commit, or the error it fails with. -/
def batchOutcome (rows : List Row) (s : Runtime) : QueryResult HashId :=
  match executeBatchWithRetry call (call.environment s.nextBatchId) rows
      { s with nextBatchId := saturatingSucc s.nextBatchId } with
  | .ok result _ => result.map BatchOutcome.commit
  | .error e _ => .error e

/-- The rows that one outer row yields. -/
def Yields (outer : Row) (output : List Row) : Prop :=
  ∃ context inner context', call.callBody context outer = .ok (inner, context') ∧
    output = mergeCallResult outer inner call.returnsRows

/-- **What a batch that succeeds leaves**: its commit on top of the head of the branch, or nothing
    but identifiers where the subquery only reads. -/
def Lands (base : HashId) (r : Repository) (commit : HashId) (r' : Repository) : Prop :=
  ∃ allocation : Repository.Allocation,
    (call.mutated = true → ∃ input schemaHash, input.branch = call.branch ∧
      input.expectedHead = base ∧ input.secondParent = none ∧
      Installed call.hashing input schemaHash { r with ids := allocation.run r.ids } r' commit) ∧
    (call.mutated = false → commit = base ∧ r' = { r with ids := allocation.run r.ids })

/-- One attempt of a batch, seen from outside. -/
def Attempted (rows : List Row) (r : Repository) (result : QueryResult BatchOutcome)
    (r' : Repository) : Prop :=
  match result with
  | .ok outcome => ∃ base, r.branches[call.branch]? = some base ∧
      Lands call base r outcome.commit r' ∧
      ∃ outputs, List.Forall₂ (Yields call) rows outputs ∧ outcome.rows = outputs.flatten
  | .error _ => r' = r

/-- The same in the run, which then stands at the head of the branch. -/
def Tried (rows : List Row) (s : Runtime) (result : QueryResult BatchOutcome) (t : Runtime) :
    Prop :=
  Attempted call rows s.repository result t.repository ∧
    ∃ base, s.repository.branches[call.branch]? = some base ∧
      t = { s with repository := t.repository, commit := base }

/-- **The account of a batch.** -/
structure Accounts (s : Runtime) (b : Batch Row BatchResult) (t : Runtime) : Prop where
  /-- Each batch has an id of its own. -/
  next : t.nextBatchId = saturatingSucc s.nextBatchId
  /-- What comes next reads the head of the branch. -/
  stands : t.repository.branches[call.branch]? = some t.commit
  /-- A batch that succeeds lands on the head of the branch, and each of its rows yields its rows
      of the subquery. -/
  committed : ∀ commit, b.result.outcome = .ok commit →
    t.commit = commit ∧ b.result.broke = false ∧
      (∃ base, s.repository.branches[call.branch]? = some base ∧
        Lands call base s.repository commit t.repository) ∧
      ∃ outputs, List.Forall₂ (Yields call) b.rows outputs ∧
        b.result.rows = addBatchStatus call.spec.statusAlias
          (batchStatus s.nextBatchId b.result.outcome) outputs.flatten
  /-- A batch that fails leaves the database file as it was, and each of its rows is reported. -/
  failed : ∀ e, b.result.outcome = .error e →
    t.repository = s.repository ∧ call.spec.effective ≠ .fail ∧
      (b.result.broke = true ↔ call.spec.effective = .break) ∧
      b.result.rows = failedRows b.rows b.result.columns call.spec.statusAlias
        (batchStatus s.nextBatchId b.result.outcome)

end Account

variable {attempt : Attempt} {rows batchRows remainingRows : List Row} {r : Repository}
  {s t : Runtime} {result : QueryResult BatchOutcome} {e : QueryError} {columns : List Text}

section Batches

variable {E C : Type} {call : TransactionCall E C}

/-! ## 2. One attempt -/

theorem executeCallSubqueryRows_ok : ∀ {rows output : List Row} {context context' : C},
    executeCallSubqueryRows call rows context = .ok (output, context') →
      ∃ outputs, List.Forall₂ (Yields call) rows outputs ∧ output = outputs.flatten
  | [], output, context, context', h => by
    cases h
    exact ⟨[], .nil, rfl⟩
  | outer :: rest, output, context, context', h => by
    unfold executeCallSubqueryRows at h
    obtain ⟨⟨inner, middle⟩, hbody, h⟩ := bind_eq_ok.mp h
    obtain ⟨⟨others, last⟩, hrest, h⟩ := bind_eq_ok.mp h
    cases h
    obtain ⟨outputs, hall, rfl⟩ := executeCallSubqueryRows_ok hrest
    exact ⟨mergeCallResult outer inner call.returnsRows :: outputs,
      .cons ⟨context, inner, middle, hbody, rfl⟩ hall, rfl⟩

theorem finishTransactionMutation_ok {base : HashId} {context : C} {r' : Repository}
    {outcome : BatchOutcome}
    (h : finishTransactionMutation call attempt base context rows r = .ok outcome r') :
    outcome.rows = rows ∧ Lands call base r outcome.commit r' := by
  unfold finishTransactionMutation at h
  rw [tx_bind_ok] at h
  obtain ⟨⟨layer, allocation, counters⟩, _, hlayer, h⟩ := h
  obtain ⟨_, rfl⟩ := lifted_ok.mp hlayer
  rw [tx_bind_ok] at h
  obtain ⟨_, _, hwrite, h⟩ := h
  cases writing_ok.mp hwrite
  rw [tx_bind_ok] at h
  obtain ⟨commit, _, hcommit, h⟩ := h
  obtain ⟨rfl, rfl⟩ := tx_pure_ok.mp h
  refine ⟨rfl, allocation, fun hmutated => ?_, fun hmutated => ?_⟩
  · unfold commitMutation at hcommit
    rw [if_pos hmutated, tx_bind_ok] at hcommit
    obtain ⟨committedAt, _, hnow, hcommit⟩ := hcommit
    obtain ⟨_, rfl⟩ := lifted_ok.mp hnow
    obtain ⟨row, _, hinstalled⟩ := Repository.commitLayer_ok (mapErr_ok.mp hcommit)
    exact ⟨_, row.schemaHash, rfl, rfl, rfl, hinstalled⟩
  · unfold commitMutation at hcommit
    rw [if_neg (by rw [hmutated]; exact Bool.false_ne_true)] at hcommit
    obtain ⟨rfl, rfl⟩ := tx_pure_ok.mp hcommit
    exact ⟨rfl, rfl⟩

/-- **One attempt.** -/
theorem executeTransactionBatch_ends {base : HashId}
    (hbase : s.repository.branches[call.branch]? = some base) :
    Ends (fun result t => Attempted call rows s.repository result t.repository ∧
      t = { s with repository := t.repository }) (fun _ _ => False)
    (executeTransactionBatch call attempt base rows s) := by
  unfold executeTransactionBatch inTransaction
  cases hrun : executeOwnedSqliteTransaction attempt
      (executeTransactionBatchInner call attempt base rows) s.repository with
  | mk found r' =>
    refine ⟨?_, rfl⟩
    unfold executeOwnedSqliteTransaction at hrun
    cases found with
    | error e => exact savepoint_error hrun
    | ok outcome =>
      have hrun := savepoint_ok.mp hrun
      simp only [tx_bind_ok, lifted_ok, tx_pure_ok] at hrun
      obtain ⟨_, _, ⟨_, rfl⟩, _, _, hinner, _, _, ⟨_, rfl⟩, rfl, rfl⟩ := hrun
      unfold executeTransactionBatchInner at hinner
      simp only [tx_bind_ok, lifted_ok, reading_ok] at hinner
      obtain ⟨_, _, ⟨_, rfl⟩, _, _, ⟨_, rfl⟩, ⟨output, context⟩, _, ⟨hrows, rfl⟩, _, _, ⟨_, rfl⟩,
        hfinish⟩ := hinner
      obtain ⟨rfl, hlands⟩ := finishTransactionMutation_ok hfinish
      exact ⟨base, hbase, hlands, executeCallSubqueryRows_ok hrows⟩

theorem Lands.head {base commit : HashId} {r r' : Repository} (h : Lands call base r commit r')
    (hbase : r.branches[call.branch]? = some base) :
    r'.branches[call.branch]? = some commit ∧
      FirstParentPath r' base (if call.mutated then [commit] else []) commit := by
  obtain ⟨allocation, hmutated, hread⟩ := h
  cases hm : call.mutated with
  | true =>
    obtain ⟨input, schemaHash, hbranch, hhead, _, hinstalled⟩ := hmutated hm
    obtain ⟨layerId, _, _, _, _, hr', hcommits⟩ := hinstalled.tables
    refine ⟨?_, ⟨input.row schemaHash layerId, ?_, ?_⟩, rfl⟩
    · have hbranches : r'.branches = r.branches.insert input.branch commit := by rw [hr']
      rw [hbranches, hbranch, lookup_insert, if_pos rfl]
    · rw [hcommits, if_pos rfl]
    · show some input.expectedHead = some base
      rw [hhead]
  | false =>
    obtain ⟨rfl, rfl⟩ := hread hm
    exact ⟨hbase, rfl⟩

/-! ## 3. The attempts of a batch -/

theorem attemptBatch_ends : Ends (Tried call rows s) (fun _ t => t.repository = s.repository)
    (attemptBatch call rows attempt s) := by
  unfold attemptBatch
  refine .reading (fun _ _ => rfl) fun _ _ => .reading (fun _ _ => rfl) fun base hhead => ?_
  have hbase : s.repository.branches[call.branch]? = some base :=
    branchHead_ok.mp (ofStorage_ok.mp hhead)
  have hbatch : Ends _ _ (executeTransactionBatch call attempt base rows { s with commit := base }) :=
    executeTransactionBatch_ends hbase
  refine .writing (hbatch.bind (fun _ _ h => h.elim) fun found u hstep => ?_)
  obtain ⟨hattempt, hu⟩ := hstep
  cases found with
  | ok outcome => exact ⟨hattempt, base, hbase, hu⟩
  | error error =>
    dsimp only
    split
    · exact hattempt
    · exact ⟨hattempt, base, hbase, hu⟩

/-- **The attempts**: one that is retried left the file as it was. -/
theorem retryBatch_ends {later : List Attempt} : Ends (Tried call rows s)
    (fun _ t => t.repository = s.repository) (retryBatch call rows later attempt s) := by
  induction later generalizing attempt s with
  | nil =>
    unfold retryBatch
    refine attemptBatch_ends.bind (fun _ _ h => h) fun found u hu => ?_
    cases found with
    | ok outcome => exact hu
    | error error =>
      dsimp only
      split
      · exact hu
      · exact hu
  | cons next later ih =>
    unfold retryBatch
    refine attemptBatch_ends.bind (fun _ _ h => h) fun found u hu => ?_
    cases found with
    | ok outcome => exact hu
    | error error =>
      dsimp only
      split
      · obtain ⟨hsame, base, _, hu⟩ := hu
        refine ih.mono (fun result t h => ?_) fun e t h => h.trans hsame
        obtain ⟨hrest, base', hbase', ht⟩ := h
        rw [hsame] at hrest hbase'
        rw [hu] at ht
        exact ⟨hrest, base', hbase', ht⟩
      · exact hu

/-! ## 4. One batch -/

theorem appendFailedBatch_ok {error : QueryError} {id : Nat} {broke : Bool}
    (h : appendFailedBatch call error id batchRows remainingRows columns = .ok (rows, broke)) :
    call.spec.effective ≠ .fail ∧ (broke = true ↔ call.spec.effective = .break) ∧
      rows = failedRows batchRows columns call.spec.statusAlias (batchStatus id (.error error)) ++
        (if broke then unstartedRows call columns remainingRows else []) := by
  unfold appendFailedBatch at h
  split at h
  · cases h
  · rename_i hfail
    split at h
    · rename_i hbreak
      cases h
      refine ⟨hfail, ⟨fun h => ?_, fun h => absurd h hbreak⟩, (List.append_nil _).symm⟩
      cases h
    · rename_i hbreak
      cases h
      exact ⟨hfail, ⟨fun _ => not_not.mp hbreak, fun _ => rfl⟩, rfl⟩

theorem unstartedRows_nil (columns : List Text) : unstartedRows call columns [] = [] := by
  unfold unstartedRows failedRows addBatchStatus
  cases call.spec.statusAlias with
  | none => rfl
  | some name => rfl

theorem unstartedRows_append (columns : List Text) (rows rows' : List Row) :
    unstartedRows call columns (rows ++ rows') =
      unstartedRows call columns rows ++ unstartedRows call columns rows' := by
  unfold unstartedRows failedRows addBatchStatus
  cases call.spec.statusAlias with
  | none => simp only [List.map_append]
  | some name => simp only [List.map_append]

/-- **One batch.** -/
theorem executeBatch_ends : Ends (fun given t => ∃ own,
      given.1 = own ++ (if given.2 then unstartedRows call columns remainingRows else []) ∧
      ∀ size, Accounts call s
        ⟨batchRows, size, ⟨columns, own, given.2, batchOutcome call batchRows s⟩⟩ t)
    (fun _ t => t.repository = s.repository)
    (executeBatch call columns batchRows remainingRows s) := by
  have hretry : Ends (Tried call batchRows { s with nextBatchId := saturatingSucc s.nextBatchId })
      (fun _ t => t.repository = s.repository) (executeBatchWithRetry call
        (call.environment s.nextBatchId) batchRows
        { s with nextBatchId := saturatingSucc s.nextBatchId }) :=
    .reading (fun _ _ => rfl) fun _ _ => retryBatch_ends
  refine hretry.told.bind (fun _ _ h => h) fun result v hresult => ?_
  obtain ⟨hresult, hattempted, head, hhead, hv⟩ := hresult
  have houtcome : batchOutcome call batchRows s = result.map BatchOutcome.commit := by
    unfold batchOutcome
    rw [hresult]
  rw [houtcome]
  cases result with
  | ok outcome =>
    obtain ⟨base, hbase, hlands, outputs, hyields, houtputs⟩ := hattempted
    refine ⟨_, (List.append_nil _).symm, fun size => ⟨?_, ?_, ?_, ?_⟩⟩
    · show v.nextBatchId = _
      rw [hv]
    · exact (hlands.head hbase).1
    · intro c hc
      cases hc
      refine ⟨rfl, rfl, ⟨base, hbase, hlands⟩, outputs, hyields, ?_⟩
      rw [← houtputs]
      rfl
    · intro e he
      cases he
  | error error =>
    dsimp only
    cases happend : appendFailedBatch call error s.nextBatchId batchRows remainingRows columns with
    | error e => exact hattempted
    | ok given =>
      obtain ⟨hfail, hbroke, hrows⟩ := appendFailedBatch_ok happend
      refine ⟨_, hrows, fun size => ⟨?_, ?_, ?_, ?_⟩⟩
      · show v.nextBatchId = _
        rw [hv]
      · show v.repository.branches[call.branch]? = some v.commit
        rw [show v.repository = s.repository from hattempted, hhead, hv]
      · intro c hc
        cases hc
      · intro e he
        exact ⟨hattempted, hfail, hbroke, rfl⟩

/-! ## 5. What a batch keeps -/

/-- What the calls of a run keep: the file stays sound, and its commits and layers stay. -/
structure Keeps (x : Hashing) (r r' : Repository) : Prop where
  linked : Linked x r'
  stays : Database.Extends r.database r'.database
  rows : ∀ (c : HashId) (row : PersistedCommitRow), r.commits[c]? = some row →
    r'.commits[c]? = some row

variable {x : Hashing}

theorem Keeps.refl {r : Repository} (hl : Linked x r) : Keeps x r r :=
  ⟨hl, ⟨fun _ _ h => h, fun _ _ h => h⟩, fun _ _ h => h⟩

theorem Keeps.trans {r r' r'' : Repository} (h : Keeps x r r') (h' : Keeps x r' r'') :
    Keeps x r r'' :=
  ⟨h'.linked, h.stays.trans h'.stays, fun c row hrow => h'.rows c row (h.rows c row hrow)⟩

theorem keeps_allocated (hl : Linked x r) (allocation : Repository.Allocation) :
    Keeps x r { r with ids := allocation.run r.ids } := by
  have hexec : Repository.exec x (.allocate allocation) r =
      .ok .done { r with ids := allocation.run r.ids } := rfl
  exact ⟨Repository.linked_exec hl hexec, ⟨fun _ _ h => h, fun _ _ h => h⟩, fun _ _ h => h⟩

theorem Lands.keeps {base commit : HashId} {r r' : Repository}
    (h : Lands call base r commit r') (hl : Linked call.hashing r) :
    Keeps call.hashing r r' := by
  obtain ⟨allocation, hmutated, hread⟩ := h
  have hallocated := keeps_allocated hl allocation
  cases hm : call.mutated with
  | true =>
    obtain ⟨input, schemaHash, _, _, _, hinstalled⟩ := hmutated hm
    exact hallocated.trans ⟨Repository.linked_installed hallocated.linked hinstalled,
      hinstalled.extends hallocated.linked, fun c row hrow => hinstalled.keeps hrow⟩
  | false =>
    obtain ⟨_, rfl⟩ := hread hm
    exact hallocated

/-- **A batch keeps the database file sound.** -/
theorem Accounts.keeps {s t : Runtime} {b : Batch Row BatchResult} (h : Accounts call s b t)
    (hl : Linked call.hashing s.repository) : Keeps call.hashing s.repository t.repository := by
  cases houtcome : b.result.outcome with
  | ok commit =>
    obtain ⟨_, _, ⟨base, _, hlands⟩, _⟩ := h.committed commit houtcome
    exact hlands.keeps hl
  | error e =>
    obtain ⟨hsame, _⟩ := h.failed e houtcome
    rw [hsame]
    exact .refl hl

theorem stored_of_resolveSnapshot {commit : HashId} {graph : GraphState}
    (h : resolveSnapshot x commit r = .ok graph) :
    ∃ row, r.database.commits[commit]? = some row := by
  unfold resolveSnapshot at h
  obtain ⟨s, hs⟩ : ∃ s, r.database.resolveState x.toExternals commit none = .ok s := by
    cases hs : r.database.resolveState x.toExternals commit none with
    | ok s => exact ⟨s, rfl⟩
    | error e =>
      rw [hs] at h
      cases h
  unfold Database.resolveState at hs
  obtain ⟨lineage, hlineage, _⟩ := bind_eq_ok.mp hs
  unfold Database.resolveLineage at hlineage
  obtain ⟨empty, _, hlineage⟩ := bind_eq_ok.mp hlineage
  unfold Database.resolveLineageFrom at hlineage
  obtain ⟨row, hrow, _⟩ := bind_eq_ok.mp hlineage
  unfold Database.loadLineageRow at hrow
  split at hrow
  · cases hrow
  · rename_i row' hrow'
    exact ⟨row', hrow'⟩

/-- **The snapshot of a commit stays what it was.** -/
theorem Keeps.pinned {commit : HashId} {r' : Repository} {graph : GraphState} (hk : Keeps x r r')
    (hl : Linked x r) (h : resolveSnapshot x commit r = .ok graph) :
    resolveSnapshot x commit r' = .ok graph := by
  obtain ⟨row, hrow⟩ := stored_of_resolveSnapshot h
  obtain ⟨s, ls, hs, hls, hgraph, _⟩ := hl.sound.resolve hrow none
  obtain ⟨s', ls', hs', hls', hgraph', _⟩ :=
    hk.linked.sound.resolve (hk.stays.commits commit row hrow) none
  unfold resolveSnapshot at h ⊢
  rw [hs] at h
  rw [hs']
  rw [(hk.stays.lineage hls).unique hls'] at hgraph
  cases h
  show Except.ok s'.snapshot.graph = Except.ok s.snapshot.graph
  rw [hgraph, hgraph']

end Batches

end Lithograph.Query.Transactions
