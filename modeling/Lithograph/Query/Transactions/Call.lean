/-
  File:      Lithograph/Query/Transactions/Call.lean
  Subject:   One batch of `CALL { … } IN TRANSACTIONS` (`query/transaction.rs`,
             `query/mutation/execute/program.rs`).

  `TransactionCall` holds the clause and stands for the modules that evaluate expressions and the
  subquery; `Attempt` and `BatchEnvironment` say what the checks for interruption, the clock and
  SQLite answer. Left out: memory and metrics, the `file()` context of a row.

  * `executeBatch`: one batch and the rows it gives.
-/
import Lithograph.Cypher.Value
import Lithograph.Mutation.Delta
import Lithograph.Query.Path.Execute
import Lithograph.Version.BranchProtocol

namespace Lithograph.Query.Transactions

open Std Library Storage Version
open Cypher (Value)
open Mutation (MutationCounters u64Max saturatingSucc)

/-! ## 1. The clause -/

/-- `BindingRow`, over the values of Cypher. -/
abbrev Row := Path.BindingRow Value

structure RowSet where
  columns : List Text := []
  rows : List Row := []

inductive TransactionErrorKind where
  | continue | break | fail | retry
  deriving DecidableEq, Repr

inductive TransactionDisjointKind where
  | auto | none | explicit
  deriving DecidableEq, Repr

def effectiveErrorMode (error retryFallback : TransactionErrorKind) : TransactionErrorKind :=
  if error = .retry then retryFallback else error

/-- `TransactionSpec`, as `transaction_spec` lets it pass. -/
structure TransactionSpec (E : Type) where
  batchSize : Option E := none
  concurrency : Option E := none
  disjoint : Option (TransactionDisjointKind × List E) := none
  error : TransactionErrorKind := .fail
  retrySeconds : Option E := none
  retryFallback : TransactionErrorKind := .fail
  statusAlias : Option Text := none
  /-- `REPORT STATUS` requires `ON ERROR CONTINUE` or `ON ERROR BREAK`. -/
  reports : statusAlias.isSome = true → effectiveErrorMode error retryFallback ≠ .fail := by
    simp [effectiveErrorMode]

/-- The error mode in force when a batch has failed for good. -/
def TransactionSpec.effective {E : Type} (spec : TransactionSpec E) : TransactionErrorKind :=
  effectiveErrorMode spec.error spec.retryFallback

/-- One pass of the loop of attempts, check by check, up to `COMMIT`. -/
structure Attempt where
  checkInterrupted : QueryResult Unit := .ok ()
  beginImmediate : QueryResult Unit := .ok ()
  checkBody : QueryResult Unit := .ok ()
  nowMicros : QueryResult Int := .ok 0
  checkCommit : Repository.Checks := fun _ => .ok ()
  commit : QueryResult Unit := .ok ()

/-- What one batch meets: its attempts, the later ones being those for which time is left. -/
structure BatchEnvironment where
  checkInterrupted : QueryResult Unit := .ok ()
  first : Attempt := {}
  second : Attempt := {}
  later : List Attempt := []

/-- The clause with its subquery. `E` are the expressions, `C` is what the subquery works on. -/
structure TransactionCall (E C : Type) where
  hashing : Hashing
  branch : Text
  author : Option Text := none
  message : Option Text := none
  spec : TransactionSpec E := {}
  /-- `expression::evaluate`, on the graph of a snapshot. -/
  evaluate : E → GraphState → Row → QueryResult Value
  /-- `infer_clause_columns`. -/
  callColumns : List Text → QueryResult (List Text)
  /-- `MutationContext::new`. -/
  newContext : Identities → GraphState → QueryResult C
  /-- The body of the subquery for one outer row. -/
  callBody : C → Row → QueryResult (RowSet × C)
  /-- `query_body_returns_columns`. -/
  returnsRows : Bool
  /-- `contains_mutation`. -/
  mutated : Bool
  /-- `validated_layer`, with the identifiers that were allocated on the way. -/
  validatedLayer : C →
    QueryResult (Repository.PreparedLayer × Repository.Allocation × MutationCounters)
  /-- What the batch with a transaction id meets. -/
  environment : Nat → BatchEnvironment := fun _ => {}

/-! ## 2. Rows -/

def combineCallRow (outer inner : Row) (columns : List Text) : Row :=
  columns.foldl (fun row column => row.insert column (inner.values[column]?.getD .null)) outer

/-- `merge_call_result`: the rows one outer row yields. -/
def mergeCallResult (outer : Row) (result : RowSet) (returnsRows : Bool) : List Row :=
  if returnsRows then result.rows.map fun inner => combineCallRow outer inner result.columns
  else [outer]

def transactionStatus (started committed : Bool) (transactionId : Option Text)
    (errorMessage : Option Text) : Value :=
  .map [("committed".toList, .boolean committed),
    ("errorMessage".toList, (errorMessage.map Value.string).getD .null),
    ("started".toList, .boolean started),
    ("transactionId".toList, (transactionId.map Value.string).getD .null)]

/-- `add_batch_status`, where a status is asked for. -/
def addBatchStatus (statusAlias : Option Text) (status : Value) (rows : List Row) : List Row :=
  match statusAlias with
  | none => rows
  | some name => rows.map fun row => row.insert name (.scalar status)

/-- The columns a row does not bind become `null`. -/
def fillColumns (columns : List Text) (row : Row) : Row :=
  columns.foldl (fun row column =>
    if row.values.contains column then row else row.insert column .null) row

def failedRows (inputs : List Row) (columns : List Text) (statusAlias : Option Text)
    (status : Value) : List Row :=
  addBatchStatus statusAlias status (inputs.map (fillColumns columns))

/-- The text of a transaction id. -/
def transactionIdText (id : Nat) : Text := ("lithograph-transaction-" ++ toString id).toList

/-! ## 3. The run of a call -/

/-- `TransactionRuntime`, with the database file. -/
structure Runtime where
  repository : Repository
  commit : HashId
  counters : MutationCounters := {}
  nextBatchId : Nat := 1

/-- A function of the executor. An error keeps what was durable before it. -/
abbrev TransactionTx (α : Type) := EStateM QueryError Runtime α

def addMutationCounters (target counters : MutationCounters) : MutationCounters where
  nodesCreated := min (target.nodesCreated + counters.nodesCreated) u64Max
  nodesDeleted := min (target.nodesDeleted + counters.nodesDeleted) u64Max
  relationshipsCreated := min (target.relationshipsCreated + counters.relationshipsCreated) u64Max
  relationshipsDeleted := min (target.relationshipsDeleted + counters.relationshipsDeleted) u64Max
  propertiesSet := min (target.propertiesSet + counters.propertiesSet) u64Max
  propertiesRemoved := min (target.propertiesRemoved + counters.propertiesRemoved) u64Max
  labelsAdded := min (target.labelsAdded + counters.labelsAdded) u64Max
  labelsRemoved := min (target.labelsRemoved + counters.labelsRemoved) u64Max

/-- The graph of the snapshot that `resolve_snapshot_with_control` opens. -/
def resolveSnapshot (x : Hashing) (commit : HashId) (r : Repository) : QueryResult GraphState :=
  ofStorage ((r.database.resolveState x.toExternals commit none).map fun s => s.snapshot.graph)

section Call

variable {E C : Type} (call : TransactionCall E C)

def evaluateAtCommit (expression : E) (row : Row) (s : Runtime) : QueryResult Value := do
  let graph ← resolveSnapshot call.hashing s.commit s.repository
  call.evaluate expression graph row

def resolveBatchSize (row : Row) (s : Runtime) : QueryResult Nat :=
  match call.spec.batchSize with
  | none => .ok 1000
  | some expression => do
    match ← evaluateAtCommit call expression row s with
    | .integer value =>
      if 0 < value then .ok value.toNat
      else .error (.invalidArgument "IN TRANSACTIONS batch size must be positive")
    | _ => .error ⟨.type, "IN TRANSACTIONS batch size must be an Integer"⟩

def validateConcurrency (row : Row) (s : Runtime) : QueryResult Unit :=
  match call.spec.concurrency with
  | none => .ok ()
  | some expression => do
    match ← evaluateAtCommit call expression row s with
    | .integer value =>
      refuseWhen (value = 0) (.invalidArgument "CONCURRENT TRANSACTIONS concurrency cannot be zero")
    | _ => .error ⟨.type, "CONCURRENT TRANSACTIONS concurrency must be an Integer"⟩

def validateDisjointExpressions (rows : List Row) (s : Runtime) : QueryResult Unit :=
  match call.spec.disjoint with
  | some (.explicit, expressions) =>
    rows.forM fun row => expressions.forM fun expression => do
      let _ ← evaluateAtCommit call expression row s
  | _ => .ok ()

/-- `seconds.is_finite() && seconds >= 0.0`. -/
def validSeconds (seconds : F64) : Bool :=
  Cypher.isFinite seconds && (seconds.isZero || seconds.bits &&& 0x8000000000000000 == 0)

/-- `resolve_retry_seconds`; what the time means for the attempts is the environment's. -/
def resolveRetrySeconds (row : Option Row) (s : Runtime) : QueryResult Unit :=
  if call.spec.error ≠ .retry then .ok ()
  else
    match call.spec.retrySeconds with
    | none => .ok ()
    | some expression =>
      match row with
      | none => .error (.internal "retry batch has no input row")
      | some row => do
        let valid ← match ← evaluateAtCommit call expression row s with
          | .integer value => .ok (decide (0 ≤ value))
          | .float value => .ok (validSeconds value)
          | _ => .error ⟨.type, "ON ERROR RETRY duration must be numeric"⟩
        refuseWhen (!valid)
          (.invalidArgument "ON ERROR RETRY duration must be non-negative and finite")

/-! ## 4. One attempt -/

/-- `execute_call_subquery_rows`: the rows of each outer row, one after the other. -/
def executeCallSubqueryRows : List Row → C → QueryResult (List Row × C)
  | [], context => .ok ([], context)
  | outer :: rest, context => do
    let (inner, context) ← call.callBody context outer
    let (output, context) ← executeCallSubqueryRows rest context
    .ok (mergeCallResult outer inner call.returnsRows ++ output, context)

/-- `TransactionBatchOutcome`. -/
structure BatchOutcome where
  rows : List Row
  commit : HashId
  counters : MutationCounters

/-- The commit of a batch. -/
def commitInput (attempt : Attempt) (base : HashId) (layer : Repository.PreparedLayer)
    (committedAt : Int) : Repository.CommitInput where
  branch := call.branch
  expectedHead := base
  secondParent := none
  layer := layer
  metadata := ⟨call.author, call.message, committedAt⟩
  check := attempt.checkCommit

/-- The commit of `finish_transaction_mutation`. -/
def commitMutation (attempt : Attempt) (base : HashId) (layer : Repository.PreparedLayer) :
    EStateM QueryError Repository HashId :=
  if call.mutated then do
    let committedAt ← lifted attempt.nowMicros
    mapErr (fun _ e => QueryError.ofStorage e)
      (Repository.commitLayer call.hashing (commitInput call attempt base layer committedAt))
  else pure base

/-- `finish_transaction_mutation`, with the identifiers that were allocated before it. -/
def finishTransactionMutation (attempt : Attempt) (base : HashId) (context : C)
    (rows : List Row) : EStateM QueryError Repository BatchOutcome := do
  let (layer, allocation, counters) ← lifted (call.validatedLayer context)
  writing fun r => { r with ids := allocation.run r.ids }
  let commit ← commitMutation call attempt base layer
  pure ⟨rows, commit, counters⟩

def executeTransactionBatchInner (attempt : Attempt) (base : HashId) (rows : List Row) :
    EStateM QueryError Repository BatchOutcome := do
  let graph ← reading (resolveSnapshot call.hashing base)
  let context ← reading fun r => call.newContext r.ids graph
  let (output, context) ← lifted (executeCallSubqueryRows call rows context)
  lifted attempt.checkBody
  finishTransactionMutation call attempt base context output

/-- `execute_owned_sqlite_transaction`: an error takes every write back. -/
def executeOwnedSqliteTransaction {α : Type} (attempt : Attempt)
    (operation : EStateM QueryError Repository α) (r : Repository) :
    QueryResult α × Repository :=
  savepoint (do
    lifted attempt.beginImmediate
    let outcome ← operation
    lifted attempt.commit
    pure outcome) r

/-- A transaction of SQLite inside a run. -/
def inTransaction {α : Type} (f : Repository → QueryResult α × Repository) :
    TransactionTx (QueryResult α) := fun s =>
  .ok (f s.repository).1 { s with repository := (f s.repository).2 }

def executeTransactionBatch (attempt : Attempt) (base : HashId) (rows : List Row) :
    TransactionTx (QueryResult BatchOutcome) :=
  inTransaction (executeOwnedSqliteTransaction attempt
    (executeTransactionBatchInner call attempt base rows))

/-! ## 5. One batch -/

/-- `is_transient`; the codes `SQLITE_BUSY` and `SQLITE_LOCKED` make up a kind. -/
def isTransient (error : QueryError) : Bool :=
  error.kind = .branchHeadMoved ∨ error.kind = .busy

/-- The error ends the call whatever the error mode. -/
def isFatal (error : QueryError) : Bool := error.kind = .interrupted ∨ error.kind = .resource

/-- One pass of the loop of `execute_batch_with_retry`, up to the question whether to retry. -/
def attemptBatch (rows : List Row) (attempt : Attempt) :
    TransactionTx (QueryResult BatchOutcome) := do
  lifted attempt.checkInterrupted
  let base ← reading fun s => ofStorage (branchHead call.branch s.repository.store)
  writing fun s => { s with commit := base }
  match ← executeTransactionBatch call attempt base rows with
  | .ok outcome => pure (.ok outcome)
  | .error error => if isFatal error then lifted (.error error) else pure (.error error)

/-- The loop of `execute_batch_with_retry`, from an attempt on, with those that may follow. -/
def retryBatch (rows : List Row) : List Attempt → Attempt → TransactionTx (QueryResult BatchOutcome)
  | later, attempt => do
    match ← attemptBatch call rows attempt with
    | .ok outcome => pure (.ok outcome)
    | .error error =>
      if call.spec.error = .retry ∧ isTransient error then
        match later with
        | [] => pure (.error error)
        | next :: later => retryBatch rows later next
      else pure (.error error)

def executeBatchWithRetry (environment : BatchEnvironment) (rows : List Row) :
    TransactionTx (QueryResult BatchOutcome) := do
  reading (resolveRetrySeconds call rows.head?)
  retryBatch call rows (environment.second :: environment.later) environment.first

def nextTransactionId : TransactionTx Nat := fun s =>
  .ok s.nextBatchId { s with nextBatchId := saturatingSucc s.nextBatchId }

/-- `append_successful_batch`: the rows to append. -/
def appendSuccessfulBatch (id : Nat) (outcome : BatchOutcome) : TransactionTx (List Row) := do
  writing fun s =>
    { s with commit := outcome.commit, counters := addMutationCounters s.counters outcome.counters }
  pure (addBatchStatus call.spec.statusAlias
    (transactionStatus true true (some (transactionIdText id)) none) outcome.rows)

/-- The rows behind a batch that ended the call. -/
def unstartedRows (columns : List Text) (rows : List Row) : List Row :=
  failedRows rows columns call.spec.statusAlias (transactionStatus false false none none)

/-- `append_failed_batch`: the rows to append, and whether the call ends here. -/
def appendFailedBatch (error : QueryError) (id : Nat) (batchRows remainingRows : List Row)
    (columns : List Text) : QueryResult (List Row × Bool) :=
  if call.spec.effective = .fail then .error error
  else
    let failed := failedRows batchRows columns call.spec.statusAlias
      (transactionStatus true false (some (transactionIdText id)) (some error.message.toList))
    if call.spec.effective ≠ .break then .ok (failed, false)
    else .ok (failed ++ unstartedRows call columns remainingRows, true)

/-- One batch: the rows it gives, and whether the call ends with it. -/
def executeBatch (columns : List Text) (batchRows remainingRows : List Row) :
    TransactionTx (List Row × Bool) := do
  let id ← nextTransactionId
  match ← executeBatchWithRetry call (call.environment id) batchRows with
  | .ok successful => do
    let rows ← appendSuccessfulBatch call id successful
    pure (rows, false)
  | .error error => lifted (appendFailedBatch call error id batchRows remainingRows columns)

end Call

end Lithograph.Query.Transactions
