/-
  File:      Lithograph/Query/Transactions/Executors.lean
  Subject:   The executors of `CALL { … } IN TRANSACTIONS` (`query/transaction.rs`,
             `query/transaction/stream.rs`).

  The materialised executor has all rows before the first batch, the CSV executor executes a batch
  as soon as its rows are read, the streaming executor pulls the rows of the batch it is asked for.
  The clauses behind the call are left out.
-/
import Lithograph.Query.Transactions.Call

namespace Lithograph.Query.Transactions

open Std Library Storage Version

section Executors

variable {E C : Type} (call : TransactionCall E C)

/-! ## 1. The materialised executor -/

structure TransactionCallResult where
  rows : RowSet
  broke : Bool

/-- The check for interruption in front of the next batch. -/
def checkInterrupted (s : Runtime) : QueryResult Unit :=
  (call.environment s.nextBatchId).checkInterrupted

/-- The loop of `execute_transaction_batches`; each pass takes a row. -/
def executeTransactionBatches (columns : List Text) (batchSize : Nat) :
    Nat → List Row → List Row → TransactionTx (List Row × Bool)
  | 0, _, output => pure (output, false)
  | passes + 1, rows, output =>
    if rows.isEmpty then pure (output, false)
    else do
      reading (checkInterrupted call)
      let remaining := rows.drop batchSize
      let (more, broke) ← executeBatch call columns (rows.take batchSize) remaining
      if broke then pure (output ++ more, true)
      else executeTransactionBatches columns batchSize passes remaining (output ++ more)

def executeTransactionCallControlled (input : RowSet) : TransactionTx TransactionCallResult := do
  let columns ← lifted (call.callColumns input.columns)
  match input.rows with
  | [] => pure ⟨⟨columns, []⟩, false⟩
  | first :: _ => do
    reading (validateConcurrency call first)
    let batchSize ← reading (resolveBatchSize call first)
    reading (validateDisjointExpressions call input.rows)
    let (rows, broke) ←
      executeTransactionBatches call columns batchSize input.rows.length input.rows []
    pure ⟨⟨columns, rows⟩, broke⟩

/-! ## 2. The CSV executor -/

/-- A clause between `LOAD CSV` and the call: one of those `execute_read_range` refuses, or one it
    reads. -/
inductive PrefixClause (Q : Type) where
  | boundary
  | read (clause : Q)

/-- `CsvTransactionPipeline`. `Q` are the reading clauses, `S` is an evaluated source with its
    delimiter. -/
structure CsvTransactionPipeline (E C Q S : Type) where
  call : TransactionCall E C
  /-- The variable `LOAD CSV` binds. -/
  binding : Text
  /-- `evaluate_csv_source`, on the graph of a snapshot. -/
  evaluateCsvSource : GraphState → Row → QueryResult S
  /-- The rows `stream_csv_binding_rows` comes to, with the error that ends them. -/
  csvBindingRows : Row → S → List (QueryResult Row)
  prefixClauses : List (PrefixClause Q)
  /-- `execute_read_clause`, on the graph of a snapshot. -/
  executeReadClause : Q → GraphState → RowSet → QueryResult RowSet
  /-- `projection_requires_global_input`, for a projection. -/
  projectionRequiresGlobalInput : Q → Bool

structure CsvBatchState where
  pendingRows : List Row := []
  pendingColumns : List Text
  transactionRows : List Row := []
  transactionColumns : List Text
  broken : Bool := false

section Csv

variable {Q S : Type} (pipeline : CsvTransactionPipeline E C Q S)

def executeReadClauseAtCommit (clause : Q) (input : RowSet) (s : Runtime) : QueryResult RowSet := do
  let graph ← resolveSnapshot pipeline.call.hashing s.commit s.repository
  pipeline.executeReadClause clause graph input

def executeReadRange : List (PrefixClause Q) → RowSet → Runtime → QueryResult RowSet
  | [], rows, _ => .ok rows
  | .boundary :: _, _, _ => .error ⟨.semantic,
      "LOAD CSV transaction pipeline contains an unsupported boundary before IN TRANSACTIONS"⟩
  | .read clause :: clauses, rows, s => do
    let rows ← executeReadClauseAtCommit pipeline clause rows s
    executeReadRange clauses rows s

def csvPrefixRequiresGlobalInput : Bool :=
  pipeline.prefixClauses.any fun clause =>
    match clause with
    | .boundary => false
    | .read clause => pipeline.projectionRequiresGlobalInput clause

/-- The loop of `flush_complete_csv_batches`; each pass takes a row. -/
def flushCompleteCsvBatches : Nat → CsvBatchState → TransactionTx CsvBatchState
  | 0, state => pure state
  | passes + 1, state =>
    match state.pendingRows with
    | [] => pure state
    | first :: _ => do
      let batchSize ← reading (resolveBatchSize pipeline.call first)
      if state.pendingRows.length < batchSize then pure state
      else do
        let result ← executeTransactionCallControlled pipeline.call
          ⟨state.pendingColumns, state.pendingRows.take batchSize⟩
        let rest := state.pendingRows.drop batchSize
        let columns := result.rows.columns
        let output := state.transactionRows ++ result.rows.rows
        if result.broke then
          pure { state with
            pendingRows := []
            transactionRows := output ++ unstartedRows pipeline.call columns rest
            transactionColumns := columns
            broken := true }
        else
          flushCompleteCsvBatches passes { state with
            pendingRows := rest
            transactionRows := output
            transactionColumns := columns }

def appendCsvPrefix (state : CsvBatchState) (input : RowSet) : TransactionTx CsvBatchState :=
  if state.broken then
    pure { state with
      pendingColumns := input.columns
      transactionRows := state.transactionRows ++
        unstartedRows pipeline.call state.transactionColumns input.rows }
  else
    let pending := state.pendingRows ++ input.rows
    flushCompleteCsvBatches pipeline pending.length
      { state with pendingColumns := input.columns, pendingRows := pending }

/-- One row of the file through the clauses in front of the call. -/
def streamCsvRow (state : CsvBatchState) (row : QueryResult Row) : TransactionTx CsvBatchState := do
  let row ← lifted row
  let input ← reading (executeReadRange pipeline pipeline.prefixClauses ⟨row.order, [row]⟩)
  appendCsvPrefix pipeline state input

/-- The rows of the file for one outer row. -/
def transactionCsvRows (outer : Row) (s : Runtime) : QueryResult (List (QueryResult Row)) := do
  let graph ← resolveSnapshot pipeline.call.hashing s.commit s.repository
  let source ← pipeline.evaluateCsvSource graph outer
  .ok (pipeline.csvBindingRows outer source)

def streamCsvOuter (state : CsvBatchState) (outer : Row) : TransactionTx CsvBatchState := do
  let rows ← reading (transactionCsvRows pipeline outer)
  rows.foldlM (streamCsvRow pipeline) state

/-- `spill_global_csv_outer`: the rows of the file, if none of them is an error. -/
def spillGlobalCsvOuter (outer : Row) (s : Runtime) : QueryResult (List Row) := do
  let rows ← transactionCsvRows pipeline outer s
  rows.mapM id

def materializeGlobalCsvPrefix (outers : List Row) (state : CsvBatchState) :
    TransactionTx CsvBatchState := do
  let rows ← reading fun s => outers.mapM fun outer => spillGlobalCsvOuter pipeline outer s
  let input ← reading
    (executeReadRange pipeline pipeline.prefixClauses ⟨state.pendingColumns, rows.flatten⟩)
  appendCsvPrefix pipeline state input

def initialCsvBatchState (columns : List Text) : QueryResult CsvBatchState := do
  let pendingColumns :=
    if columns.contains pipeline.binding then columns else columns ++ [pipeline.binding]
  let transactionColumns ← pipeline.call.callColumns pendingColumns
  .ok { pendingColumns, transactionColumns }

def finishPendingCsvBatch (state : CsvBatchState) : TransactionTx CsvBatchState :=
  if state.broken ∨ state.pendingRows.isEmpty then pure state
  else do
    let result ← executeTransactionCallControlled pipeline.call
      ⟨state.pendingColumns, state.pendingRows⟩
    pure { state with
      pendingRows := []
      transactionRows := state.transactionRows ++ result.rows.rows
      transactionColumns := result.rows.columns }

/-- The files of the outer rows. -/
def streamCsvFiles (outers : List Row) (state : CsvBatchState) : TransactionTx CsvBatchState :=
  if csvPrefixRequiresGlobalInput pipeline then materializeGlobalCsvPrefix pipeline outers state
  else outers.foldlM (streamCsvOuter pipeline) state

/-- `stream_csv_batches`, up to the clauses behind the call. -/
def streamCsvBatches (input : RowSet) : TransactionTx RowSet := do
  let state ← lifted (initialCsvBatchState pipeline input.columns)
  let state ← streamCsvFiles pipeline input.rows state
  let state ← finishPendingCsvBatch pipeline state
  pure ⟨state.transactionColumns, state.transactionRows⟩

end Csv

/-! ## 3. The streaming executor -/

/-- What a stream is built on: the columns around the call, and the commit and the rows of the
    prefix, which end with an error or with the clauses. -/
structure StreamPrefix where
  prefixCommit : HashId
  bindings : GraphState → List (QueryResult Row)
  inputColumns : List Text
  columns : List Text
  /-- `call_output_columns`, which `try_new` asks once. -/
  inferred : call.callColumns inputColumns = .ok columns

/-- `TransactionProgramStream`. The cursor of the prefix is the number of rows taken; `handed` are
    the rows that went on behind the call. -/
structure TransactionProgramStream where
  runtime : Runtime
  position : Nat := 0
  batchSize : Option Nat := none
  concurrencyValidated : Bool := false
  pendingInput : List Row := []
  handed : List Row := []
  upstreamDone : Bool := false
  broken : Bool := false
  finished : Bool := false

/-- A function of the stream; an error ends the stream. -/
abbrev StreamTx (α : Type) := EStateM QueryError TransactionProgramStream α

/-- A function of the executor, on the runtime of the stream. -/
def onRuntime {α : Type} (f : TransactionTx α) : StreamTx α := fun stream =>
  match f stream.runtime with
  | .ok a runtime => .ok a { stream with runtime }
  | .error e runtime => .error e { stream with runtime }

variable (source : StreamPrefix call)

/-- The rows of the prefix, read at its own commit. -/
def prefixBindings (stream : TransactionProgramStream) : QueryResult (List (QueryResult Row)) := do
  let graph ← resolveSnapshot call.hashing source.prefixCommit stream.runtime.repository
  .ok (source.bindings graph)

def pullPrefixRow : StreamTx (Option Row) := do
  if ← reading fun stream => .ok stream.upstreamDone then pure none
  else do
    let rows ← reading (prefixBindings call source)
    match rows[← reading fun stream => .ok stream.position]? with
    | none => do
      writing fun stream => { stream with upstreamDone := true }
      pure none
    | some row => do
      let row ← lifted row
      writing fun stream => { stream with position := stream.position + 1 }
      pure (some row)

/-- A row of the prefix waits for its batch. -/
def pushPending (row : Row) : StreamTx Unit :=
  writing fun stream => { stream with pendingInput := stream.pendingInput ++ [row] }

/-- The checks `ensure_batch_started` makes once, at the first row. -/
def startStream (first : Row) : StreamTx Unit := do
  reading fun stream =>
    if stream.concurrencyValidated then .ok () else validateConcurrency call first stream.runtime
  writing fun stream => { stream with concurrencyValidated := true }
  let batchSize ← reading fun stream =>
    match stream.batchSize with
    | some batchSize => .ok batchSize
    | none => resolveBatchSize call first stream.runtime
  writing fun stream => { stream with batchSize := some batchSize }

def finishInput : StreamTx Unit := writing fun stream => { stream with finished := true }

def ensureBatchStarted : StreamTx Bool := do
  if ← reading fun stream => .ok (!stream.pendingInput.isEmpty) then pure true
  else
    match ← pullPrefixRow call source with
    | none => do
      finishInput
      pure false
    | some first => do
      startStream call first
      pushPending first
      pure true

/-- The loop of `fill_pending_batch`; as many passes as the batch has rows are enough. -/
def fillPendingBatch (batchSize : Nat) : Nat → StreamTx Unit
  | 0 => pure ()
  | passes + 1 => do
    if ← reading fun stream =>
        .ok (decide (stream.pendingInput.length < batchSize) && !stream.upstreamDone) then
      match ← pullPrefixRow call source with
      | none => pure ()
      | some row => do
        pushPending row
        fillPendingBatch batchSize passes
    else pure ()

/-- `install_output`: the rows go to the clauses behind the call. -/
def installOutput (rows : List Row) : StreamTx Unit :=
  writing fun stream => { stream with handed := stream.handed ++ rows }

def executePendingBatch : StreamTx Unit := do
  let batchRows ← reading fun stream => .ok stream.pendingInput
  writing fun stream => { stream with pendingInput := [] }
  onRuntime (reading (validateDisjointExpressions call batchRows))
  let (output, broke) ← onRuntime (executeBatch call source.columns batchRows [])
  writing fun stream => { stream with broken := broke }
  installOutput output

def executeNextBatch : StreamTx Unit := do
  if ← ensureBatchStarted call source then
    let batchSize ← reading fun stream =>
      match stream.batchSize with
      | some batchSize => .ok batchSize
      | none => .error (.internal "transaction stream lost its batch size")
    fillPendingBatch call source batchSize batchSize
    if ← reading fun stream => .ok stream.pendingInput.isEmpty then finishInput
    else executePendingBatch call source
  else pure ()

/-- The loop of `produce_unstarted_rows`, with the rows it has. -/
def pullUnstartedRows : Nat → List Row → StreamTx (List Row)
  | 0, inputs => pure inputs
  | passes + 1, inputs => do
    match ← pullPrefixRow call source with
    | none => pure inputs
    | some row => pullUnstartedRows passes (inputs ++ [row])

def produceUnstartedRows : StreamTx Unit := do
  let inputs ← pullUnstartedRows call source 256 []
  if inputs.isEmpty then finishInput
  else installOutput (unstartedRows call source.columns inputs)

/-- One pass of the loop of `next_batch_in` that has no rows to give. -/
def advance (interrupted : QueryResult Unit) : StreamTx Unit := do
  lifted interrupted
  if ← reading fun stream => .ok stream.broken then produceUnstartedRows call source
  else executeNextBatch call source

/-- The passes of a stream, until it is finished; each has an answer of the check for
    interruption. -/
def runStream : List (QueryResult Unit) → StreamTx Unit
  | [] => pure ()
  | interrupted :: later => do
    if ← reading fun stream => .ok stream.finished then pure ()
    else do
      advance call source interrupted
      runStream later

end Executors

end Lithograph.Query.Transactions
