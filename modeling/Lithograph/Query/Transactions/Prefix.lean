/-
  File:      Lithograph/Query/Transactions/Prefix.lean
  Subject:   The clauses in front of a call, on one snapshot and on the commits a run reaches.

  The CSV executor opens the files and reads their rows at the commit its batches have reached. A
  prefix is blind where it cannot tell the graph of a commit from the graph of a branch head in the
  same database file.

  * **`eachOuter_initial`** -- a run reads of a blind prefix what it reads at its first commit.
-/
import Lithograph.Query.Transactions.StreamRuns

namespace Lithograph.Query.Transactions

open Std Library Storage Version
open Version.Repository (Linked)

/-! ## 1. The prefix on one snapshot -/

/-- `LOAD CSV` with the clauses between it and the call. -/
structure CsvPrefix (Q S : Type) where
  binding : Text
  evaluateCsvSource : GraphState → Row → QueryResult S
  prefixClauses : List (PrefixClause Q)
  executeReadClause : Q → GraphState → RowSet → QueryResult RowSet
  projectionRequiresGlobalInput : Q → Bool
  /-- The columns behind a clause, which its plan fixes. -/
  clauseColumns : Q → List Text → List Text
  planned : ∀ {clause graph input found}, executeReadClause clause graph input = .ok found →
    found.columns = clauseColumns clause input.columns

section Prefix

variable {E C Q S : Type} (p : CsvPrefix Q S) (files : Row → S → List (QueryResult Row))

/-- The prefix in front of a call, with the rows of the files. -/
def CsvPrefix.before (call : TransactionCall E C) : CsvTransactionPipeline E C Q S where
  call := call
  binding := p.binding
  evaluateCsvSource := p.evaluateCsvSource
  csvBindingRows := files
  prefixClauses := p.prefixClauses
  executeReadClause := p.executeReadClause
  projectionRequiresGlobalInput := p.projectionRequiresGlobalInput

/-- A projection of the prefix needs all its input. -/
def CsvPrefix.global : Bool :=
  p.prefixClauses.any fun clause =>
    match clause with
    | .boundary => false
    | .read clause => p.projectionRequiresGlobalInput clause

/-- The columns `LOAD CSV` leaves. -/
def csvColumns (columns : List Text) : List Text :=
  if columns.contains p.binding then columns else columns ++ [p.binding]

/-- The columns a clause leaves. -/
def stepColumns (columns : List Text) : PrefixClause Q → List Text
  | .boundary => columns
  | .read clause => p.clauseColumns clause columns

/-- The columns in front of the call. -/
def columnsBehind (columns : List Text) : List Text :=
  p.prefixClauses.foldl (stepColumns p) (csvColumns p columns)

/-- The clauses between `LOAD CSV` and the call, on the graph of one snapshot. -/
def readRange (graph : GraphState) : List (PrefixClause Q) → RowSet → QueryResult RowSet
  | [], rows => .ok rows
  | .boundary :: _, _ => .error ⟨.semantic,
      "LOAD CSV transaction pipeline contains an unsupported boundary before IN TRANSACTIONS"⟩
  | .read clause :: clauses, rows => do
    let rows ← p.executeReadClause clause graph rows
    readRange graph clauses rows

/-- What one row of a file becomes. -/
def readRow (graph : GraphState) (row : Row) : QueryResult RowSet :=
  readRange p graph p.prefixClauses ⟨row.order, [row]⟩

/-- The rows of the file for one outer row. -/
def fileRows (graph : GraphState) (outer : Row) : QueryResult (List (QueryResult Row)) := do
  let source ← p.evaluateCsvSource graph outer
  .ok (files outer source)

def lineRows (graph : GraphState) (line : QueryResult Row) : QueryResult RowSet := do
  let row ← line
  readRow p graph row

/-- What the file of one outer row becomes. -/
def outerRows (graph : GraphState) (outer : Row) : QueryResult (List Row) := do
  let lines ← fileRows p files graph outer
  let inputs ← lines.mapM (lineRows p graph)
  .ok (inputs.flatMap RowSet.rows)

/-- **The rows in front of the call**, with every clause on one snapshot. -/
def prefixRows (input : RowSet) (graph : GraphState) : QueryResult (List Row) :=
  if p.global then do
    let lines ← input.rows.mapM fun outer => do
      let lines ← fileRows p files graph outer
      lines.mapM id
    let found ← readRange p graph p.prefixClauses ⟨csvColumns p input.columns, lines.flatten⟩
    .ok found.rows
  else do
    let groups ← input.rows.mapM (outerRows p files graph)
    .ok groups.flatten

variable {p files} {call : TransactionCall E C} {graph graph' : GraphState} {s s₀ : Runtime}
  {columns : List Text}

theorem readRange_columns : ∀ {clauses : List (PrefixClause Q)} {rows found : RowSet},
    readRange p graph clauses rows = .ok found →
      found.columns = clauses.foldl (stepColumns p) rows.columns
  | [], _, _, h => by
    cases h
    rfl
  | .boundary :: _, _, _, h => by cases h
  | .read clause :: clauses, rows, found, h => by
    obtain ⟨middle, hclause, h⟩ := bind_eq_ok.mp h
    rw [readRange_columns h, p.planned hclause]
    rfl

theorem readRow_columns {row : Row} {found : RowSet} (horder : row.order = csvColumns p columns)
    (h : readRow p graph row = .ok found) : found.columns = columnsBehind p columns := by
  rw [readRange_columns h, horder]
  rfl

theorem executeReadRange_snapshot
    (hp : resolveSnapshot call.hashing s.commit s.repository = .ok graph) :
    ∀ (clauses : List (PrefixClause Q)) (rows : RowSet),
      executeReadRange (p.before files call) clauses rows s = readRange p graph clauses rows
  | [], _ => rfl
  | .boundary :: _, _ => rfl
  | .read clause :: clauses, rows => by
    unfold executeReadRange readRange executeReadClauseAtCommit
    rw [show resolveSnapshot (p.before files call).call.hashing s.commit s.repository = _ from hp]
    show (p.executeReadClause clause graph rows >>= _) = _
    congr 1
    funext found
    exact executeReadRange_snapshot hp clauses found

theorem transactionCsvRows_snapshot
    (hp : resolveSnapshot call.hashing s.commit s.repository = .ok graph) (outer : Row) :
    transactionCsvRows (p.before files call) outer s = fileRows p files graph outer := by
  unfold transactionCsvRows fileRows
  rw [show resolveSnapshot (p.before files call).call.hashing s.commit s.repository = _ from hp]
  rfl

theorem csvLineRows_snapshot
    (hp : resolveSnapshot call.hashing s.commit s.repository = .ok graph)
    (line : QueryResult Row) :
    csvLineRows (p.before files call) line s = lineRows p graph line := by
  unfold csvLineRows lineRows readRow
  simp only [executeReadRange_snapshot hp]
  rfl

/-! ## 2. A blind prefix -/

section Blind

variable (p)

/-- Some row of a file gives the call a row. -/
def Feeds (columns : List Text) (graph : GraphState) : Prop :=
  ∃ outer source row found, p.evaluateCsvSource graph outer = .ok source ∧
    row.order = csvColumns p columns ∧ readRow p graph row = .ok found ∧ found.rows ≠ []

/-- What the prefix reads on a graph it reads on another. -/
structure SameReads (columns : List Text) (graph graph' : GraphState) : Prop where
  source : ∀ {outer source}, p.evaluateCsvSource graph outer = .ok source →
    p.evaluateCsvSource graph' outer = .ok source
  row : ∀ {row found}, row.order = csvColumns p columns → readRow p graph row = .ok found →
    readRow p graph' row = .ok found

/-- **The prefix is blind**: in a sound database file it reads at the head of a branch what it
    reads at any commit at which it gives the call a row. -/
def Blind (columns : List Text) : Prop :=
  ∀ (x : Hashing) (r : Repository) (branch : Text) (commit head : HashId)
    (graph graph' : GraphState), Linked x r → r.branches[branch]? = some head →
      resolveSnapshot x commit r = .ok graph → resolveSnapshot x head r = .ok graph' →
        Feeds p columns graph → SameReads p columns graph graph'

/-- A row of a file is read on the graph. -/
def LineInitial (columns : List Text) (graph : GraphState) (line : QueryResult Row)
    (result : QueryResult RowSet) : Prop :=
  ∃ row found, line = .ok row ∧ row.order = csvColumns p columns ∧
    readRow p graph row = .ok found ∧ result = .ok found

variable (files)

/-- A file is opened on the graph, and its rows can be read. -/
def OuterInitial (columns : List Text) (graph : GraphState) (outer : Row)
    (result : QueryResult (List (QueryResult Row))) : Prop :=
  ∃ source, p.evaluateCsvSource graph outer = .ok source ∧ result = .ok (files outer source) ∧
    ∀ line ∈ files outer source, ∃ found, LineInitial p columns graph line (.ok found)

end Blind

theorem LineInitial.lineRows {line : QueryResult Row} {found : RowSet}
    (h : LineInitial p columns graph line (.ok found)) :
    Transactions.lineRows p graph line = .ok found ∧ found.columns = columnsBehind p columns := by
  obtain ⟨row, _, rfl, horder, hread, hfound⟩ := h
  cases hfound
  exact ⟨hread, readRow_columns horder hread⟩

variable {outer : Row} {lines : List (QueryResult Row)} {rows : List Row}

theorem OuterInitial.fileRows (h : OuterInitial p files columns graph outer (.ok lines)) :
    Transactions.fileRows p files graph outer = .ok lines := by
  obtain ⟨source, hsource, hlines, _⟩ := h
  cases hlines
  exact bind_eq_ok.mpr ⟨source, hsource, rfl⟩

theorem LineRows.initial (h : LineRows (LineInitial p columns graph) lines rows) :
    ∃ inputs, lines.mapM (lineRows p graph) = .ok inputs ∧ rows = inputs.flatMap RowSet.rows := by
  obtain ⟨inputs, hinputs, rfl⟩ := h
  exact ⟨inputs, mapM_of_forall₂ (hinputs.imp fun _ _ hline => hline.lineRows.1), rfl⟩

theorem OuterRows.initial
    (h : OuterRows (LineInitial p columns graph) (OuterInitial p files columns graph) outer rows) :
    outerRows p files graph outer = .ok rows := by
  obtain ⟨lines, hlines, hrows⟩ := h
  obtain ⟨inputs, hinputs, rfl⟩ := hrows.initial
  exact bind_eq_ok.mpr ⟨lines, hlines.fileRows, bind_eq_ok.mpr ⟨inputs, hinputs, rfl⟩⟩

/-- **What was read of the files is the front of the rows of the snapshot.** -/
theorem FrontRows.initial {outers rows : List Row} {groups : List (List Row)}
    (h : FrontRows (LineInitial p columns graph) (OuterInitial p files columns graph) outers rows)
    (hall : outers.mapM (outerRows p files graph) = .ok groups) :
    ∃ more, groups.flatten = rows ++ more := by
  obtain ⟨front, later, found, last, rfl, hfound, rfl, hlast⟩ := h
  have hfront : front.mapM (outerRows p files graph) = .ok found :=
    mapM_of_forall₂ (hfound.imp fun outer group hrows => hrows.initial)
  rw [List.mapM_append, hfront, ok_bind] at hall
  obtain ⟨rest, hrest, hgroups⟩ := bind_eq_ok.mp hall
  cases hgroups
  rcases hlast with rfl | ⟨outer, others, lines, lines', rfl, hopened, hrows⟩
  · refine ⟨rest.flatten, ?_⟩
    rw [List.flatten_append, List.append_nil]
  · obtain ⟨inputs, hinputs, rfl⟩ := hrows.initial
    rw [List.mapM_cons] at hrest
    obtain ⟨group, hgroup, hrest⟩ := bind_eq_ok.mp hrest
    obtain ⟨groups, _, hrest⟩ := bind_eq_ok.mp hrest
    cases hrest
    obtain ⟨_, hfile, hgroup⟩ := bind_eq_ok.mp hgroup
    rw [hopened.fileRows] at hfile
    cases hfile
    obtain ⟨_, hmapped, hgroup⟩ := bind_eq_ok.mp hgroup
    cases hgroup
    rw [List.mapM_append, hinputs, ok_bind] at hmapped
    obtain ⟨inputs', _, hmapped⟩ := bind_eq_ok.mp hmapped
    cases hmapped
    refine ⟨inputs'.flatMap RowSet.rows ++ groups.flatten, ?_⟩
    rw [List.flatten_append, List.flatten_cons, List.flatMap_append, List.append_assoc,
      List.append_assoc]

/-! ## 3. A run over a blind prefix -/

variable {fed : List Row} {st : CsvBatchState} {P : QueryResult (List Text) → Prop}

theorem Trace.stands {batches : List (Batch Row BatchResult)}
    (h : Trace (Accounts call) s₀ batches s) (hsome : batches ≠ []) :
    s.repository.branches[call.branch]? = some s.commit := by
  induction h with
  | nil s => exact absurd rfl hsome
  | @cons s t u b bs hb hrest ih =>
    cases bs with
    | cons b' bs => exact ih (List.cons_ne_nil b' bs)
    | nil =>
      cases hrest
      exact hb.stands

theorem CsvRun.trace (h : CsvRun call P s₀ fed st s) :
    ∃ batches, Trace (Accounts call) s₀ batches s ∧ (batches ≠ [] → fed ≠ []) := by
  have hrows : ∀ {bs : List (Batch Row BatchResult)} {t : Runtime},
      Trace (csvBatching call P).Executes s₀ bs t → bs ≠ [] → bs.flatMap Batch.rows ≠ [] := by
    intro bs t htrace hsome hnil
    obtain ⟨b, hb⟩ := List.exists_mem_of_ne_nil bs hsome
    exact (sizes_of_executes htrace b hb).1 (List.flatMap_eq_nil_iff.mp hnil b hb)
  cases h with
  | waiting hfill hfed _ _ =>
    have htrace := Batching.Fills.executes hfill
    refine ⟨_, accounts_of_executes htrace, fun hsome hnil => hrows htrace hsome ?_⟩
    rw [hfed] at hnil
    exact (List.append_eq_nil_iff.mp hnil).1
  | @ended bs b tail u hfill hlast hfed _ _ _ _ =>
    have htrace : Trace (csvBatching call P).Executes s₀ (bs ++ [b]) s :=
      trace_append.mpr ⟨u, Batching.Fills.executes hfill, .cons hlast (.nil s)⟩
    refine ⟨_, accounts_of_executes htrace, fun hsome hnil => hrows htrace hsome ?_⟩
    rw [hfed, ← List.append_assoc] at hnil
    rw [List.flatMap_append, List.flatMap_cons, List.flatMap_nil, List.append_nil]
    exact (List.append_eq_nil_iff.mp hnil).1

theorem LineRows.feeds {source : S} (h : LineRows (LineInitial p columns graph) lines rows)
    (hsource : p.evaluateCsvSource graph outer = .ok source) (hsome : rows ≠ []) :
    Feeds p columns graph := by
  obtain ⟨inputs, hinputs, rfl⟩ := h
  induction hinputs with
  | nil => exact absurd rfl hsome
  | @cons line input lines inputs hline _ ih =>
    by_cases hnil : input.rows = []
    · refine ih ?_
      rw [List.flatMap_cons, hnil] at hsome
      exact hsome
    · obtain ⟨row, found, _, horder, hread, hfound⟩ := hline
      cases hfound
      exact ⟨outer, source, row, _, hsource, horder, hread, hnil⟩

section Run

variable (hblind : Blind p columns) (hl : Linked call.hashing s₀.repository)
  (hp : resolveSnapshot call.hashing s₀.commit s₀.repository = .ok graph)

include hblind hl hp

/-- **Wherever a run has got to, a blind prefix reads what it reads at the start.** -/
theorem CsvRun.same (hrun : CsvRun call P s₀ fed st s) (hfeeds : fed ≠ [] → Feeds p columns graph) :
    ∃ graph', resolveSnapshot call.hashing s.commit s.repository = .ok graph' ∧
      SameReads p columns graph graph' := by
  obtain ⟨batches, htrace, hfed⟩ := hrun.trace
  by_cases hnone : batches = []
  · subst hnone
    cases htrace
    exact ⟨graph, hp, fun h => h, fun _ h => h⟩
  · have hkeeps := Trace.keeps htrace hl
    have hstands := Trace.stands htrace hnone
    obtain ⟨row, hrow⟩ := hkeeps.linked.head hstands
    obtain ⟨state, _, hstate, _⟩ :=
      hkeeps.linked.sound.resolve (Repository.database_row_of hrow) none
    have hopen : resolveSnapshot call.hashing s.commit s.repository = .ok state.snapshot.graph := by
      unfold resolveSnapshot
      rw [hstate]
      rfl
    exact ⟨_, hopen, hblind _ _ _ _ _ _ _ hkeeps.linked hstands (hkeeps.pinned hl hp) hopen
      (hfeeds (hfed hnone))⟩

theorem eachLine_initial (hP : P (call.callColumns (columnsBehind p columns))) {outer : Row}
    {source : S} (hsource : p.evaluateCsvSource graph outer = .ok source) :
    ∀ {lines : List (QueryResult Row)} {fed : List Row} {st : CsvBatchState} {s : Runtime},
      CsvRun call P s₀ fed st s → (fed ≠ [] → Feeds p columns graph) →
      (∀ line ∈ lines, ∃ found, LineInitial p columns graph line (.ok found)) →
        EachLine (p.before files call) (LineInitial p columns graph) lines st s
  | [], _, _, _, _, _, _ => trivial
  | line :: lines, fed, st, s, hrun, hfeeds, hlines => by
    obtain ⟨found, row, _, rfl, horder, hread, hfound⟩ := hlines _ (.head _)
    cases hfound
    obtain ⟨graph', hopen, hsame⟩ := hrun.same hblind hl hp hfeeds
    have hrows : csvLineRows (p.before files call) (.ok row) s = .ok found := by
      rw [csvLineRows_snapshot hopen]
      exact hsame.row horder hread
    refine ⟨⟨row, found, rfl, horder, hread, hrows⟩, fun st' t hstep => ?_⟩
    have hends : Ends (fun st' t => CsvRun call P s₀ (fed ++ found.rows) st' t ∧ Waits call P st' t)
        (fun _ _ => True)
        ((reading (csvLineRows (p.before files call) (.ok row)) >>=
          appendCsvPrefix (p.before files call) st) s) := by
      refine .reading (fun _ _ => trivial) fun found' hfound' => ?_
      rw [hrows] at hfound'
      cases hfound'
      refine Ends.mono (appendCsvPrefix_ends hrun ?_) (fun _ _ h => h) fun _ _ _ => trivial
      show P (call.callColumns found.columns)
      rw [readRow_columns horder hread]
      exact hP
    refine eachLine_initial hP hsource (hends.ok hstep).1 (fun hsome => ?_) fun line hline =>
      hlines line (.tail _ hline)
    by_cases hnil : fed = []
    · subst hnil
      exact ⟨outer, source, row, found, hsource, horder, hread, hsome⟩
    · exact hfeeds hnil

/-- **A run reads of a blind prefix what it reads at its first commit.** -/
theorem eachOuter_initial (hP : P (call.callColumns (columnsBehind p columns))) :
    ∀ {outers fed : List Row} {st : CsvBatchState} {s : Runtime}, CsvRun call P s₀ fed st s →
      Waits call P st s → (fed ≠ [] → Feeds p columns graph) →
      (∀ outer ∈ outers, ∃ lines, OuterInitial p files columns graph outer (.ok lines)) →
        EachOuter (p.before files call) (LineInitial p columns graph)
          (OuterInitial p files columns graph) outers st s
  | [], _, _, _, _, _, _, _ => trivial
  | outer :: outers, fed, st, s, hrun, hwaits, hfeeds, houters => by
    obtain ⟨_, source, hsource, hfile, hlines⟩ := houters _ (.head _)
    obtain ⟨graph', hopen, hsame⟩ := hrun.same hblind hl hp hfeeds
    have hrows : transactionCsvRows (p.before files call) outer s = .ok (files outer source) := by
      rw [transactionCsvRows_snapshot hopen]
      exact bind_eq_ok.mpr ⟨source, hsame.source hsource, rfl⟩
    have hopens : OuterInitial p files columns graph outer
        (transactionCsvRows (p.before files call) outer s) := ⟨source, hsource, hrows, hlines⟩
    have heach : ∀ lines, transactionCsvRows (p.before files call) outer s = .ok lines →
        EachLine (p.before files call) (LineInitial p columns graph) lines st s := by
      intro lines hread
      rw [hrows] at hread
      cases hread
      exact eachLine_initial hblind hl hp hP hsource hrun hfeeds hlines
    refine ⟨hopens, heach, fun st' t hstep => ?_⟩
    have hends : Ends _ _ ([outer].foldlM (streamCsvOuter (p.before files call)) st s) :=
      streamCsvOuters_ends (fun line input hline => hline.lineRows.2 ▸ hP)
        ⟨hopens, heach, fun _ _ _ => trivial⟩ hrun hwaits
    have hone : [outer].foldlM (streamCsvOuter (p.before files call)) st s = .ok st' t := by
      exact tx_bind_ok.mpr ⟨st', t, hstep, rfl⟩
    obtain ⟨groups, hgroups, hrun', hwaits'⟩ := hends.ok hone
    refine eachOuter_initial hP hrun' hwaits' (fun hsome => ?_) fun outer houter =>
      houters outer (.tail _ houter)
    by_cases hnil : fed = []
    · subst hnil
      cases hgroups with
      | cons hgroup hnone =>
        cases hnone
        obtain ⟨lines, _, hgroup⟩ := hgroup
        refine hgroup.feeds hsource fun hempty => hsome ?_
        rw [hempty]
        rfl
    · exact hfeeds hnil

end Run

end Prefix

end Lithograph.Query.Transactions
