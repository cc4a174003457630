/-
  File:      Lithograph/Query/Transactions/BlindPrefixes.lean
  Subject:   The executors agree on no other prefixes.

  A call that only reads gives every row back, in a batch of its own, and its first batch moves the
  CSV executor to the head of the branch. On files made for it, it tells apart what the prefix reads
  at the head and at the first commit.

  * **`executors_agree`** -- the programs on which the executors agree on every run.
-/
import Lithograph.Query.Transactions.Agreement

namespace Lithograph.Query.Transactions

open Std Library Storage Version
open Mutation (saturatingSucc)
open Version.Repository (Linked Reaches linked_reaches byDepth fresh fresh_reached)

variable {st : CsvBatchState}

/-! ## 1. A call that reads -/

/-- A call that gives each row back, in a batch of its own. -/
def readerCall (x : Hashing) (branch : Text) : TransactionCall Unit Unit where
  hashing := x
  branch := branch
  spec := { batchSize := some () }
  evaluate := fun _ _ _ => .ok (.integer 1)
  callColumns := .ok
  newContext := fun _ _ => .ok ()
  callBody := fun _ _ => .ok ({}, ())
  returnsRows := false
  mutated := false
  validatedLayer := fun _ => .ok ((Repository.nodeCommit branch).layer,
    ⟨fun ids => ids, fun _ => ⟨Int.le_refl _, Int.le_refl _, fun _ h => h, fun _ h => h,
      fun _ h => h⟩⟩, {})

theorem readerCall_steady (x : Hashing) (branch : Text) : Steady (readerCall x branch) 1 where
  size := .inr ⟨(), rfl, Nat.one_pos, fun _ _ => rfl⟩
  concurrency := by
    intro e he
    cases he
  disjoint := by
    intro es hes
    cases hes
  goes := fun _ => rfl

section Reader

variable {x : Hashing} {r : Repository} {branch : Text} {commit head : HashId}
  {graph graph' : GraphState} {s : Runtime} {columns : List Text}

theorem executeCallSubqueryRows_reader : ∀ rows : List Row,
    executeCallSubqueryRows (readerCall x branch) rows () = .ok (rows, ())
  | [] => rfl
  | row :: rows => by
    unfold executeCallSubqueryRows
    exact bind_eq_ok.mpr ⟨({}, ()), rfl,
      bind_eq_ok.mpr ⟨_, executeCallSubqueryRows_reader rows, rfl⟩⟩

/-- The reader stands at a commit that can be opened, in a database file it leaves as it is. -/
structure ReadsAt (x : Hashing) (r : Repository) (c : HashId) (s : Runtime) : Prop where
  repository : s.repository = r
  commit : s.commit = c
  opens : ∃ graph, resolveSnapshot x c r = .ok graph

variable (hhead : r.branches[branch]? = some head) (hopen : resolveSnapshot x head r = .ok graph')

include hhead hopen

theorem attemptBatch_reader (hs : s.repository = r) (rows : List Row) :
    attemptBatch (readerCall x branch) rows {} s =
      .ok (.ok ⟨rows, head, {}⟩) { s with commit := head } := by
  subst hs
  have hbranch :
      ofStorage (branchHead (readerCall x branch).branch s.repository.store) = .ok head :=
    ofStorage_ok.mpr (branchHead_ok.mpr hhead)
  have hinner : executeTransactionBatchInner (readerCall x branch) {} head rows s.repository =
      .ok ⟨rows, head, {}⟩ s.repository := by
    unfold executeTransactionBatchInner
    refine tx_bind_ok.mpr ⟨graph', _, reading_ok.mpr ⟨hopen, rfl⟩, ?_⟩
    refine tx_bind_ok.mpr ⟨(), _, rfl, ?_⟩
    refine tx_bind_ok.mpr ⟨(rows, ()), _,
      lifted_ok.mpr ⟨executeCallSubqueryRows_reader rows, rfl⟩, ?_⟩
    exact tx_bind_ok.mpr ⟨(), _, rfl, rfl⟩
  have howned : executeOwnedSqliteTransaction {}
      (executeTransactionBatchInner (readerCall x branch) {} head rows) s.repository =
        (.ok ⟨rows, head, {}⟩, s.repository) := by
    refine savepoint_ok.mpr (tx_bind_ok.mpr ⟨(), _, rfl, tx_bind_ok.mpr ⟨_, _, hinner, ?_⟩⟩)
    exact tx_bind_ok.mpr ⟨(), _, rfl, rfl⟩
  unfold attemptBatch
  refine tx_bind_ok.mpr ⟨(), s, rfl, tx_bind_ok.mpr ⟨head, s, reading_ok.mpr ⟨hbranch, rfl⟩, ?_⟩⟩
  refine tx_bind_ok.mpr ⟨(), { s with commit := head }, rfl, ?_⟩
  refine tx_bind_ok.mpr ⟨.ok ⟨rows, head, {}⟩, { s with commit := head }, ?_, rfl⟩
  unfold executeTransactionBatch inTransaction
  rw [howned]

/-- **One batch of the reader** gives its rows back and moves to the head of the branch. -/
theorem executeBatch_reader (hs : s.repository = r) (columns : List Text) (rows rest : List Row) :
    ∃ t, executeBatch (readerCall x branch) columns rows rest s = .ok (rows, false) t ∧
      ReadsAt x r head t := by
  obtain ⟨repository, c, counters, id⟩ := s
  have hattempt := attemptBatch_reader (s := ⟨repository, c, counters, saturatingSucc id⟩)
    hhead hopen hs rows
  refine ⟨⟨repository, head, addMutationCounters counters {}, saturatingSucc id⟩, ?_, hs, rfl,
    graph', hopen⟩
  unfold executeBatch
  refine tx_bind_ok.mpr ⟨id, ⟨repository, c, counters, saturatingSucc id⟩, rfl, ?_⟩
  refine tx_bind_ok.mpr ⟨.ok ⟨rows, head, {}⟩, ⟨repository, head, counters, saturatingSucc id⟩, ?_,
    rfl⟩
  refine tx_bind_ok.mpr ⟨(), _, rfl, ?_⟩
  unfold retryBatch
  exact tx_bind_ok.mpr ⟨_, _, hattempt, rfl⟩

omit hhead hopen in
theorem resolveBatchSize_reader (branch : Text) (h : ReadsAt x r commit s) (row : Row) :
    resolveBatchSize (readerCall x branch) row s = .ok 1 := by
  obtain ⟨graph, hgraph⟩ := h.opens
  refine (readerCall_steady x branch).resolveBatchSize ⟨graph, ?_⟩ row
  rw [h.repository, h.commit]
  exact hgraph

/-- **The batches of the reader** give its rows back. -/
theorem executeTransactionBatches_reader (columns : List Text) : ∀ (passes : Nat)
    (rows output : List Row) {commit : HashId} {s : Runtime}, ReadsAt x r commit s →
    rows.length ≤ passes →
    ∃ t, executeTransactionBatches (readerCall x branch) columns 1 passes rows output s =
        .ok (output ++ rows, false) t ∧
      ReadsAt x r (if rows = [] then commit else head) t
  | 0, rows, output, commit, s, hs, hlength => by
    obtain rfl := List.length_eq_zero_iff.mp (Nat.le_zero.mp hlength)
    exact ⟨s, by rw [List.append_nil]; rfl, hs⟩
  | passes + 1, [], output, commit, s, hs, _ => ⟨s, by rw [List.append_nil]; rfl, hs⟩
  | passes + 1, row :: rows, output, commit, s, hs, hlength => by
    obtain ⟨u, hbatch, hu⟩ := executeBatch_reader hhead hopen hs.repository columns [row] rows
    obtain ⟨t, hrest, ht⟩ := executeTransactionBatches_reader columns passes rows
      (output ++ [row]) hu (Nat.le_of_succ_le_succ hlength)
    refine ⟨t, ?_, ?_⟩
    · unfold executeTransactionBatches
      refine tx_bind_ok.mpr ⟨(), s, rfl, tx_bind_ok.mpr ⟨([row], false), u, hbatch, ?_⟩⟩
      rw [List.append_assoc] at hrest
      exact hrest
    · rw [ite_self] at ht
      exact ht

/-- **The reader on rows that are there.** -/
theorem executeTransactionCallControlled_reader (hs : ReadsAt x r commit s) (input : RowSet) :
    ∃ result t, executeTransactionCallControlled (readerCall x branch) input s = .ok result t ∧
      result.rows.rows = input.rows ∧ result.broke = false ∧
      ReadsAt x r (if input.rows = [] then commit else head) t := by
  obtain ⟨columns, rows⟩ := input
  cases rows with
  | nil => exact ⟨_, s, rfl, rfl, rfl, hs⟩
  | cons row rows =>
    obtain ⟨t, hbatches, ht⟩ := executeTransactionBatches_reader hhead hopen columns
      (row :: rows).length (row :: rows) [] hs (Nat.le_refl _)
    have hsize := resolveBatchSize_reader branch hs row
    refine ⟨⟨⟨columns, row :: rows⟩, false⟩, t, ?_, rfl, rfl, ht⟩
    unfold executeTransactionCallControlled
    refine tx_bind_ok.mpr ⟨columns, s, rfl, tx_bind_ok.mpr ⟨(), s, rfl, ?_⟩⟩
    refine tx_bind_ok.mpr ⟨1, s, reading_ok.mpr ⟨hsize, rfl⟩, tx_bind_ok.mpr ⟨(), s, rfl, ?_⟩⟩
    exact tx_bind_ok.mpr ⟨_, t, hbatches, rfl⟩

variable {Q S : Type} {p : CsvPrefix Q S} {files : Row → S → List (QueryResult Row)}
  {st : CsvBatchState} {rows : List Row}

/-- The CSV executor of the reader between two rows of the file: no row waits. -/
structure ReaderAt (x : Hashing) (r : Repository) (c : HashId) (rows : List Row)
    (st : CsvBatchState) (s : Runtime) : Prop where
  goes : st.broken = false
  pending : st.pendingRows = []
  given : st.transactionRows = rows
  reads : ReadsAt x r c s

theorem flushCompleteCsvBatches_reader (p : CsvPrefix Q S)
    (files : Row → S → List (QueryResult Row)) : ∀ (passes : Nat) (st : CsvBatchState)
    {commit : HashId} {s : Runtime}, ReadsAt x r commit s → st.broken = false →
    st.pendingRows.length ≤ passes →
    ∃ st' t, flushCompleteCsvBatches (p.before files (readerCall x branch)) passes st s =
        .ok st' t ∧
      ReaderAt x r (if st.pendingRows = [] then commit else head)
        (st.transactionRows ++ st.pendingRows) st' t
  | 0, st, commit, s, hs, hgoes, hlength => by
    have hnil := List.length_eq_zero_iff.mp (Nat.le_zero.mp hlength)
    refine ⟨st, s, rfl, hgoes, hnil, ?_, ?_⟩
    · rw [hnil, List.append_nil]
    · rw [if_pos hnil]
      exact hs
  | passes + 1, ⟨[], _, given, _, _⟩, commit, s, hs, hgoes, _ =>
    ⟨_, s, rfl, hgoes, rfl, (List.append_nil given).symm, hs⟩
  | passes + 1, ⟨row :: rest, columns, given, outputColumns, broken⟩, commit, s, hs, hgoes,
      hlength => by
    obtain ⟨result, u, hcall, hrows, hbroke, hu⟩ :=
      executeTransactionCallControlled_reader hhead hopen hs ⟨columns, [row]⟩
    rw [if_neg (List.cons_ne_nil row [])] at hu
    obtain ⟨st', t, hflush, ht⟩ := flushCompleteCsvBatches_reader p files passes
      ⟨rest, columns, given ++ result.rows.rows, result.rows.columns, broken⟩ hu hgoes
      (Nat.le_of_succ_le_succ hlength)
    refine ⟨st', t, ?_, ?_⟩
    · unfold flushCompleteCsvBatches
      refine tx_bind_ok.mpr ⟨1, s, reading_ok.mpr ⟨resolveBatchSize_reader branch hs row, rfl⟩, ?_⟩
      refine tx_bind_ok.mpr ⟨result, u, hcall, ?_⟩
      rw [if_neg (by rw [hbroke]; exact Bool.false_ne_true)]
      exact hflush
    · rw [ite_self, hrows, List.append_assoc] at ht
      exact ht

/-- **The reader takes up a row of the file at once**, and then stands at the head. -/
theorem streamCsvRow_reader (files : Row → S → List (QueryResult Row)) {row : Row} {found : RowSet}
    (hst : ReaderAt x r commit rows st s) (hp : resolveSnapshot x commit r = .ok graph)
    (hread : readRow p graph row = .ok found) :
    ∃ st' t, streamCsvRow (p.before files (readerCall x branch)) st (.ok row) s = .ok st' t ∧
      ReaderAt x r (if found.rows = [] then commit else head) (rows ++ found.rows) st' t := by
  obtain ⟨hgoes, hpending, rfl, hs⟩ := hst
  obtain ⟨st', t, hflush, ht⟩ := flushCompleteCsvBatches_reader hhead hopen p files
    (st.pendingRows ++ found.rows).length
    { st with pendingColumns := found.columns, pendingRows := st.pendingRows ++ found.rows }
    hs hgoes (Nat.le_refl _)
  have hp' : resolveSnapshot (readerCall x branch).hashing s.commit s.repository = .ok graph := by
    rw [hs.repository, hs.commit]
    exact hp
  refine ⟨st', t, ?_, ?_⟩
  · rw [streamCsvRow_eq]
    refine tx_bind_ok.mpr ⟨found, s, reading_ok.mpr ⟨?_, rfl⟩, ?_⟩
    · rw [csvLineRows_snapshot hp']
      exact hread
    · unfold appendCsvPrefix
      rw [if_neg (by rw [hgoes]; exact Bool.false_ne_true)]
      exact hflush
  · rw [hpending, List.nil_append] at ht
    exact ht

omit hhead hopen in
/-- The reader opens a file at the commit it stands at. -/
theorem streamCsvOuter_reader {outer : Row} {st' : CsvBatchState} {t : Runtime}
    (hs : ReadsAt x r commit s) (hp : resolveSnapshot x commit r = .ok graph)
    (h : streamCsvOuter (p.before files (readerCall x branch)) st outer s = .ok st' t) :
    ∃ source, p.evaluateCsvSource graph outer = .ok source ∧
      (files outer source).foldlM (streamCsvRow (p.before files (readerCall x branch))) st s =
        .ok st' t := by
  have hp' : resolveSnapshot (readerCall x branch).hashing s.commit s.repository = .ok graph := by
    rw [hs.repository, hs.commit]
    exact hp
  obtain ⟨lines, _, hread, h⟩ := tx_bind_ok.mp h
  obtain ⟨hlines, rfl⟩ := reading_ok.mp hread
  rw [transactionCsvRows_snapshot hp'] at hlines
  obtain ⟨source, hsource, hlines⟩ := bind_eq_ok.mp hlines
  cases hlines
  exact ⟨source, hsource, h⟩

omit hhead hopen in
/-- A run of the reader that returned gives the rows it took up. -/
theorem streamCsvBatches_reader {outers : List Row} {result : RowSet} {t : Runtime}
    (hglobal : ¬ p.global = true) (hs : ReadsAt x r commit s)
    (h : streamCsvBatches (p.before files (readerCall x branch)) ⟨columns, outers⟩ s =
      .ok result t) :
    ∃ st₀ st₁ s₁, ReaderAt x r commit [] st₀ s ∧
      outers.foldlM (streamCsvOuter (p.before files (readerCall x branch))) st₀ s = .ok st₁ s₁ ∧
      ∀ c rows, ReaderAt x r c rows st₁ s₁ → result.rows = rows := by
  unfold streamCsvBatches at h
  simp only [tx_bind_ok, lifted_ok] at h
  obtain ⟨st₀, _, ⟨hst, rfl⟩, st₁, s₁, hfiles, st₂, s₂, hfinish, h⟩ := h
  obtain ⟨rfl, _⟩ := tx_pure_ok.mp h
  unfold streamCsvFiles at hfiles
  rw [if_neg (show ¬ csvPrefixRequiresGlobalInput (p.before files _) = true from hglobal)] at hfiles
  cases hst
  refine ⟨_, st₁, s₁, ⟨rfl, rfl, rfl, hs⟩, hfiles, fun c rows hat => ?_⟩
  unfold finishPendingCsvBatch at hfinish
  rw [if_pos (.inr (by rw [hat.pending]; rfl))] at hfinish
  obtain ⟨rfl, _⟩ := tx_pure_ok.mp hfinish
  exact hat.given

/-- **Where the executors agree**, the CSV executor of the reader gives the rows of the prefix. -/
theorem Agreement.reader {shape : ProgramShape} {input : RowSet}
    {source : StreamPrefix (readerCall x branch)}
    (h : Agreement (readerCall x branch) rows s
      (ExecutorRun shape (p.before files (readerCall x branch)) input source rows s))
    (hshape : shape.streams = false) (hs : ReadsAt x r commit s) :
    ∃ result t, streamCsvBatches (p.before files (readerCall x branch)) input s = .ok result t ∧
      result.rows = rows := by
  obtain ⟨result', t', hcall, hrows, _⟩ :=
    executeTransactionCallControlled_reader hhead hopen hs ⟨source.inputColumns, rows⟩
  cases h with
  | returned bs tail t h =>
    obtain ⟨output, hcsv, haccounted⟩ := h _ (.csv hshape)
    obtain ⟨output', hmaterialised, haccounted'⟩ := h _ .materialised
    have htail : tail = [] := by
      refine Classical.byContradiction fun htail => ?_
      obtain ⟨_, _, _, _, _, hbreak⟩ := haccounted.unstarted htail
      cases (show TransactionErrorKind.fail = .break from hbreak)
    obtain ⟨_, houtput⟩ := haccounted.output
    obtain ⟨_, houtput'⟩ := haccounted'.output
    rw [htail, unstartedRows_nil] at houtput houtput'
    obtain ⟨result, _, hresult, hcsv⟩ := tx_bind_ok.mp hcsv
    obtain ⟨rfl, rfl⟩ := tx_pure_ok.mp hcsv
    refine ⟨result, _, hresult, ?_⟩
    obtain ⟨result'', _, hcall', hmaterialised⟩ := tx_bind_ok.mp hmaterialised
    obtain ⟨rfl, _⟩ := tx_pure_ok.mp hmaterialised
    rw [show executeTransactionCallControlled (p.before files (readerCall x branch)).call _ s = _
      from hcall] at hcall'
    cases hcall'
    rw [houtput, ← houtput', hrows]
  | aborted bs rest e t h _ =>
    have hmaterialised := h _ .materialised
    rcases tx_bind_err.mp hmaterialised with herror | ⟨_, _, _, herror⟩
    · rw [show executeTransactionCallControlled (p.before files (readerCall x branch)).call _ s = _
        from hcall] at herror
      cases herror
    · exact (tx_pure_err.mp herror).elim

end Reader

/-! ## 2. Exactly the blind prefixes -/

section Exact

variable {Q S : Type} {p : CsvPrefix Q S} {files : Row → S → List (QueryResult Row)}
  {columns : List Text} {shape : ProgramShape} {outer row row' : Row} {source : S}
  {found found' : RowSet} {x : Hashing} {r : Repository} {branch : Text} {commit head : HashId}
  {graph graph' : GraphState} {outers rows : List Row} {groups : List (List Row)}

theorem prefixRows_files (hglobal : ¬ p.global = true) (h : List.Forall₂
    (fun outer rows => outerRows p files graph outer = .ok rows) outers groups) :
    prefixRows p files ⟨columns, outers⟩ graph = .ok groups.flatten := by
  unfold prefixRows
  rw [if_neg hglobal]
  exact bind_eq_ok.mpr ⟨groups, mapM_of_forall₂ h, rfl⟩

theorem outerRows_lines (files : Row → S → List (QueryResult Row))
    {lines : List (QueryResult Row)} {inputs : List RowSet}
    (hsource : p.evaluateCsvSource graph outer = .ok source) (hfile : files outer source = lines)
    (h : List.Forall₂ (fun line input => lineRows p graph line = .ok input) lines inputs) :
    outerRows p files graph outer = .ok (inputs.flatMap RowSet.rows) :=
  bind_eq_ok.mpr ⟨lines, bind_eq_ok.mpr ⟨source, hsource, by rw [hfile]⟩,
    bind_eq_ok.mpr ⟨inputs, mapM_of_forall₂ h, rfl⟩⟩

variable (hshape : shape.streams = false) (hglobal : ¬ p.global = true)
  (h : ExecutorsAgree p columns shape) (hl : Linked x r) (hhead : r.branches[branch]? = some head)
  (hp : resolveSnapshot x commit r = .ok graph) (hopen : resolveSnapshot x head r = .ok graph')

include hshape hglobal h hl hhead hp hopen

/-- What the reader takes up where the executors agree. -/
theorem rows_of_executorsAgree (hbinds : Binds p files columns outers)
    (hrows : prefixRows p files ⟨columns, outers⟩ graph = .ok rows) :
    ∃ st₀ st₁ s₁, ReaderAt x r commit [] st₀ { repository := r, commit := commit } ∧
      outers.foldlM (streamCsvOuter (p.before files (readerCall x branch))) st₀
        { repository := r, commit := commit } = .ok st₁ s₁ ∧
      ∀ c rows', ReaderAt x r c rows' st₁ s₁ → rows = rows' := by
  have hs : ReadsAt x r commit { repository := r, commit := commit } := ⟨rfl, rfl, graph, hp⟩
  obtain ⟨result, t, hcsv, rfl⟩ := (h Unit Unit (readerCall x branch) files 1 outers rows
    { repository := r, commit := commit } graph _ _ rfl hl (readerCall_steady x branch) rfl hbinds
    hp hrows).reader hhead hopen hshape hs
  exact streamCsvBatches_reader hglobal hs hcsv

variable (horder : row.order = csvColumns p columns) (hread : readRow p graph row = .ok found)
  (hsome : found.rows ≠ [])

include horder hread hsome

/-- A source is the same at the head: its file is opened twice, and any other file is empty. -/
theorem source_of_executorsAgree (hsource : p.evaluateCsvSource graph outer = .ok source) :
    p.evaluateCsvSource graph' outer = .ok source := by
  classical
  obtain ⟨files, hfile, hother⟩ : ∃ files : Row → S → List (QueryResult Row),
      files outer source = [.ok row] ∧ ∀ other, other ≠ source → files outer other = [] :=
    ⟨fun _ other => if other = source then [.ok row] else [], if_pos rfl,
      fun _ hne => if_neg hne⟩
  have houter := outerRows_lines files hsource hfile (.cons hread .nil)
  have hbinds : Binds p files columns [outer, outer] := by
    intro outer' houter other line hline
    obtain rfl : outer' = outer := by simpa using houter
    by_cases heq : other = source
    · rw [heq, hfile] at hline
      cases List.mem_singleton.mp hline
      exact horder
    · rw [hother other heq] at hline
      cases hline
  obtain ⟨st₀, st₂, s₂, hst₀, hfold, hgiven⟩ := rows_of_executorsAgree hshape hglobal h hl hhead hp
    hopen hbinds (prefixRows_files hglobal (.cons houter (.cons houter .nil)))
  obtain ⟨st₁, s₁, hrow, hst₁⟩ := streamCsvRow_reader hhead hopen files hst₀ hp hread
  rw [if_neg hsome, List.nil_append] at hst₁
  simp only [List.foldlM_cons, List.foldlM_nil, tx_bind_ok, tx_pure_ok] at hfold
  obtain ⟨_, _, hfirst, _, _, hsecond, rfl, rfl⟩ := hfold
  obtain ⟨other, hsame, hfirst⟩ := streamCsvOuter_reader hst₀.reads hp hfirst
  cases hsource.symm.trans hsame
  rw [hfile] at hfirst
  simp only [List.foldlM_cons, List.foldlM_nil, tx_bind_ok, tx_pure_ok] at hfirst
  obtain ⟨_, _, hrow', rfl, rfl⟩ := hfirst
  rw [hrow] at hrow'
  cases hrow'
  obtain ⟨other, hsource', hsecond⟩ := streamCsvOuter_reader hst₁.reads hopen hsecond
  by_cases heq : other = source
  · rw [← heq]
    exact hsource'
  · rw [hother other heq, List.foldlM_nil] at hsecond
    obtain ⟨rfl, rfl⟩ := tx_pure_ok.mp hsecond
    have hrows := hgiven head found.rows hst₁
    simp only [List.flatMap_cons, List.flatMap_nil, List.append_nil, List.flatten_cons,
      List.flatten_nil, List.append_right_eq_self] at hrows
    exact absurd hrows hsome

/-- A row is the same at the head: it stands behind one that makes a batch. -/
theorem row_of_executorsAgree (hsource : p.evaluateCsvSource graph outer = .ok source)
    (horder' : row'.order = csvColumns p columns) (hread' : readRow p graph row' = .ok found') :
    readRow p graph' row' = .ok found' := by
  have houter := outerRows_lines (fun _ _ => [.ok row, .ok row']) hsource rfl
    (.cons hread (.cons hread' .nil))
  have hbinds : Binds p (fun _ _ => [.ok row, .ok row']) columns [outer] := by
    intro _ _ _ line hline
    rcases List.mem_cons.mp hline with hline | hline
    · cases hline
      exact horder
    · cases List.mem_singleton.mp hline
      exact horder'
  obtain ⟨st₀, st₂, s₂, hst₀, hfold, hgiven⟩ := rows_of_executorsAgree hshape hglobal h hl hhead hp
    hopen hbinds (prefixRows_files hglobal (.cons houter .nil))
  obtain ⟨st₁, s₁, hrow, hst₁⟩ := streamCsvRow_reader hhead hopen
    (fun _ _ => [.ok row, .ok row']) hst₀ hp hread
  rw [if_neg hsome, List.nil_append] at hst₁
  simp only [List.foldlM_cons, List.foldlM_nil, tx_bind_ok, tx_pure_ok] at hfold
  obtain ⟨_, _, hfirst, rfl, rfl⟩ := hfold
  obtain ⟨_, _, hfirst⟩ := streamCsvOuter_reader hst₀.reads hp hfirst
  simp only [List.foldlM_cons, List.foldlM_nil, tx_bind_ok, tx_pure_ok] at hfirst
  obtain ⟨_, _, hrow', _, _, hlast, rfl, rfl⟩ := hfirst
  rw [hrow] at hrow'
  cases hrow'
  -- the second row is read at the head
  have hread₂ : ∃ late, readRow p graph' row' = .ok late := by
    rw [streamCsvRow_eq] at hlast
    obtain ⟨late, _, hreading, _⟩ := tx_bind_ok.mp hlast
    obtain ⟨hlate, _⟩ := reading_ok.mp hreading
    have hopen' : resolveSnapshot (readerCall x branch).hashing s₁.commit s₁.repository =
        .ok graph' := by
      rw [hst₁.reads.repository, hst₁.reads.commit]
      exact hopen
    rw [csvLineRows_snapshot hopen'] at hlate
    exact ⟨late, hlate⟩
  obtain ⟨late, hlate⟩ := hread₂
  obtain ⟨st₂, s₂, hrow₂, hst₂⟩ := streamCsvRow_reader hhead hopen
    (fun _ _ => [.ok row, .ok row']) hst₁ hopen hlate
  rw [hrow₂] at hlast
  cases hlast
  have hrows := hgiven _ _ hst₂
  simp only [List.flatMap_cons, List.flatMap_nil, List.append_nil, List.flatten_cons,
    List.flatten_nil, List.append_cancel_left_eq] at hrows
  have hcolumns := (readRow_columns horder' hread').trans (readRow_columns horder' hlate).symm
  obtain ⟨columns₁, rows₁⟩ := found'
  cases hrows
  cases hcolumns
  exact hlate

end Exact

section Exact

variable {Q S : Type} {p : CsvPrefix Q S} {columns : List Text} {shape : ProgramShape}

end Exact

/-! ## 3. A file in front of a match -/

/-- A repository whose `main` has one node. -/
def markedOnce : Repository :=
  Repository.after [.allocate Repository.firstNode, .commit (Repository.nodeCommit "main".toList)]
    fresh

theorem markedOnce_reached : Reaches byDepth markedOnce :=
  Repository.after_reaches fresh_reached _

/-- `LOAD CSV FROM 'f' AS row MATCH (n)`. -/
def matchNodes : CsvPrefix Unit Unit where
  binding := "row".toList
  evaluateCsvSource := fun _ _ => .ok ()
  prefixClauses := [.read ()]
  executeReadClause := fun _ graph input => .ok ⟨input.columns ++ ["n".toList],
    input.rows.flatMap fun row =>
      graph.nodes.keys.map fun node => row.insert "n".toList (.node node)⟩
  projectionRequiresGlobalInput := fun _ => false
  clauseColumns := fun _ columns => columns ++ ["n".toList]
  planned := by
    intro clause graph input found h
    cases h
    rfl

/-- A file of two rows. -/
def twoLines (outer : Row) (_ : Unit) : List (QueryResult Row) :=
  List.replicate 2 (.ok (outer.insert "row".toList .null))

/-- `CALL (row) { CREATE () } IN TRANSACTIONS OF 1 ROW`. -/
def createOne : TransactionCall Int (Int × List Int) := createNodes { batchSize := some 1 }

theorem createOne_steady : Steady createOne 1 where
  size := .inr ⟨1, rfl, Nat.one_pos, fun _ _ => rfl⟩
  concurrency := by
    intro e he
    cases he
  disjoint := by
    intro es hes
    cases hes
  goes := fun _ => rfl

/-- The rows of the prefix on the first commit. -/
def matchedRows : List Row :=
  List.replicate 2 ((({} : Row).insert "row".toList .null).insert "n".toList (.node 1))

/-- A call starts where `main` has one node. -/
def marked : Runtime := { repository := markedOnce, commit := [1, 1] }

/-- The head of `main` behind a run. -/
def headBehind : EStateM.Result QueryError Runtime (List Row) → Option HashId
  | .ok _ t => t.repository.branches["main".toList]?
  | .error _ _ => none

theorem Agreement.sameHead {E C : Type} {call : TransactionCall E C} {rows : List Row} {s : Runtime}
    {runs : EStateM.Result QueryError Runtime (List Row) → Prop}
    {run run' : EStateM.Result QueryError Runtime (List Row)} (h : Agreement call rows s runs)
    (hrun : runs run) (hrun' : runs run') : headBehind run = headBehind run' := by
  cases h with
  | returned bs tail t h =>
    obtain ⟨_, rfl, _⟩ := h run hrun
    obtain ⟨_, rfl, _⟩ := h run' hrun'
    rfl
  | aborted bs rest e t h _ => rw [h run hrun, h run' hrun']

/-- The second row of the file is matched against what the first batch has created: three batches
    in place of two. -/
theorem matchNodes_heads :
    headBehind ((do
      let result ← streamCsvBatches (matchNodes.before twoLines createOne) ⟨[], [{}]⟩
      pure result.rows) marked) = some [1, 1, 1, 1, 1] ∧
    headBehind ((do
      let result ← executeTransactionCallControlled createOne
        ⟨["row".toList, "n".toList], matchedRows⟩
      pure result.rows.rows) marked) = some [1, 1, 1, 1] := by
  decide +kernel

end Lithograph.Query.Transactions
