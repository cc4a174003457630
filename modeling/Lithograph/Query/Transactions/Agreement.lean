/-
  File:      Lithograph/Query/Transactions/Agreement.lean
  Subject:   When the executors of a call in transactions agree.

  The materialised and the streaming executor read the clauses in front of the call at the commit
  the call starts from, the CSV executor at the commit its batches have reached. It runs where
  `TransactionProgramStream::try_new` gives no stream; where a projection then needs all the input,
  or the prefix is blind, it makes the same batches as the others.

  * `ExecutorsAgree`, **`executorsAgree_of`** -- the three, returned or aborted.
-/
import Lithograph.Query.Transactions.Prefix

namespace Lithograph.Query.Transactions

open Std Library Storage Version
open Cypher (Value)
open Library.Batching (Agree Executes Fills Processed Aborted)
open Version.Repository (Linked)

variable {e : QueryError} {st : CsvBatchState}

/-! ## 1. The options of the clause -/

section Options

variable {E C : Type} {call : TransactionCall E C} {n : Nat} {s t : Runtime}

/-- **The options do not depend on the graph**: one batch size, a concurrency that is not zero,
    keys that can be evaluated, and nobody interrupts the call between two batches. -/
structure Steady (call : TransactionCall E C) (n : Nat) : Prop where
  size : (call.spec.batchSize = none ∧ n = 1000) ∨ ∃ e, call.spec.batchSize = some e ∧ 0 < n ∧
    ∀ graph row, call.evaluate e graph row = .ok (.integer n)
  concurrency : ∀ e, call.spec.concurrency = some e → ∃ k : Int, k ≠ 0 ∧
    ∀ graph row, call.evaluate e graph row = .ok (.integer k)
  disjoint : ∀ es, call.spec.disjoint = some (.explicit, es) → ∀ e ∈ es, ∀ graph row,
    ∃ value, call.evaluate e graph row = .ok value
  goes : ∀ id, (call.environment id).checkInterrupted = .ok ()

/-- The commit a runtime stands at can be opened. -/
def Resolves (call : TransactionCall E C) (s : Runtime) : Prop :=
  ∃ graph, resolveSnapshot call.hashing s.commit s.repository = .ok graph

theorem evaluateAtCommit_steady {e : E} {value : Value} {row : Row} (hs : Resolves call s)
    (h : ∀ graph row, call.evaluate e graph row = .ok value) :
    evaluateAtCommit call e row s = .ok value := by
  obtain ⟨graph, hgraph⟩ := hs
  exact bind_eq_ok.mpr ⟨graph, hgraph, h graph row⟩

theorem Steady.resolveBatchSize (h : Steady call n) (hs : Resolves call s) (row : Row) :
    resolveBatchSize call row s = .ok n := by
  unfold Transactions.resolveBatchSize
  rcases h.size with ⟨hnone, rfl⟩ | ⟨e, hsome, hpos, hvalue⟩
  · rw [hnone]
  · rw [hsome]
    refine bind_eq_ok.mpr ⟨_, evaluateAtCommit_steady hs hvalue, ?_⟩
    dsimp only
    rw [if_pos (by exact_mod_cast hpos), Int.toNat_natCast]

theorem Steady.size_only (h : Steady call n) {row : Row} {m : Nat}
    (hm : Transactions.resolveBatchSize call row s = .ok m) : m = n := by
  by_cases hs : Resolves call s
  · rw [h.resolveBatchSize hs row] at hm
    exact (Except.ok.inj hm).symm
  · unfold Transactions.resolveBatchSize at hm
    rcases h.size with ⟨hnone, rfl⟩ | ⟨e, hsome, _, _⟩
    · rw [hnone] at hm
      exact (Except.ok.inj hm).symm
    · rw [hsome] at hm
      obtain ⟨_, hvalue, _⟩ := bind_eq_ok.mp hm
      obtain ⟨graph, hgraph, _⟩ := bind_eq_ok.mp hvalue
      exact absurd ⟨graph, hgraph⟩ hs

theorem Steady.validateConcurrency (h : Steady call n) (hs : Resolves call s) (row : Row) :
    validateConcurrency call row s = .ok () := by
  unfold Transactions.validateConcurrency
  cases he : call.spec.concurrency with
  | none => rfl
  | some e =>
    obtain ⟨k, hk, hvalue⟩ := h.concurrency e he
    refine bind_eq_ok.mpr ⟨_, evaluateAtCommit_steady hs hvalue, ?_⟩
    dsimp only
    unfold refuseWhen
    rw [if_neg (by simpa using hk)]

theorem Steady.validateDisjointExpressions (h : Steady call n) (hs : Resolves call s)
    (rows : List Row) : validateDisjointExpressions call rows s = .ok () := by
  unfold Transactions.validateDisjointExpressions
  split
  · rename_i es hes
    obtain ⟨graph, hgraph⟩ := hs
    refine forM_eq_ok.mpr fun row _ => forM_eq_ok.mpr fun e he => ?_
    obtain ⟨value, hvalue⟩ := h.disjoint es hes e he graph row
    exact bind_eq_ok.mpr ⟨value, bind_eq_ok.mpr ⟨graph, hgraph, hvalue⟩, rfl⟩
  · rfl

theorem Steady.not_refuses {P : QueryResult (List Text) → Prop} (h : Steady call n)
    (hs : Resolves call s) (hP : ∀ found, ¬ P (.error found)) : ¬ Refuses call P s e := by
  intro hrefuses
  cases hrefuses with
  | interrupted hcheck =>
    rw [show checkInterrupted call s = .ok () from h.goes s.nextBatchId] at hcheck
    cases hcheck
  | columns hcheck => exact hP e hcheck
  | concurrency hcheck =>
    rw [h.validateConcurrency hs] at hcheck
    cases hcheck
  | size hcheck =>
    rw [h.resolveBatchSize hs] at hcheck
    cases hcheck
  | disjoint hcheck =>
    rw [h.validateDisjointExpressions hs] at hcheck
    cases hcheck

theorem Accounts.resolves {b : Batch Row BatchResult} (h : Accounts call s b t)
    (hl : Linked call.hashing s.repository) : Resolves call t := by
  have hl' := (h.keeps hl).linked
  obtain ⟨row, hrow⟩ := hl'.head h.stands
  obtain ⟨state, _, hstate, _⟩ := hl'.sound.resolve (Repository.database_row_of hrow) none
  refine ⟨state.snapshot.graph, ?_⟩
  unfold resolveSnapshot
  rw [hstate]
  rfl

theorem Trace.resolves {batches : List (Batch Row BatchResult)}
    (h : Trace (Accounts call) s batches t) (hl : Linked call.hashing s.repository)
    (hs : Resolves call s) : Resolves call t := by
  induction h with
  | nil s => exact hs
  | cons hb _ ih => exact ih (hb.keeps hl).linked (hb.resolves hl)

/-- **Two executors make the same of the same rows.** -/
theorem batching_agree {size size' : Runtime → Row → Nat → Prop} {known known' : List Text → Prop}
    (hsize : ∀ {s a n n'}, size s a n → size' s a n' → n = n')
    (hknown : ∀ {found found'}, known found → known' found' → found = found') :
    Agree (batching call size known) (batching call size' known') where
  size := hsize
  exec := by
    intro rows s r t r' t' hexec hexec'
    obtain ⟨hcolumns, houtcome, hbatch⟩ := hexec
    obtain ⟨hcolumns', houtcome', hbatch'⟩ := hexec'
    obtain ⟨found, own, broke, outcome⟩ := r
    obtain ⟨found', own', broke', outcome'⟩ := r'
    obtain rfl := hknown hcolumns hcolumns'
    subst houtcome houtcome'
    rw [hbatch] at hbatch'
    cases hbatch'
    exact ⟨rfl, rfl⟩
  fails := by
    intro rows s e t e' t' hfails hfails'
    obtain ⟨found, hfound, hbatch⟩ := hfails
    obtain ⟨found', hfound', hbatch'⟩ := hfails'
    obtain rfl := hknown hfound hfound'
    rw [hbatch] at hbatch'
    cases hbatch'
    exact ⟨rfl, rfl⟩
  left := by
    intro rows s r t e t' hexec hfails
    obtain ⟨hcolumns, _, hbatch⟩ := hexec
    obtain ⟨found, hfound, hbatch'⟩ := hfails
    obtain rfl := hknown hcolumns hfound
    rw [hbatch] at hbatch'
    cases hbatch'
  right := by
    intro rows s e t r t' hfails hexec
    obtain ⟨hcolumns, _, hbatch⟩ := hexec
    obtain ⟨found, hfound, hbatch'⟩ := hfails
    obtain rfl := hknown hfound hcolumns
    rw [hbatch] at hbatch'
    cases hbatch'
  stops := rfl

end Options

/-! ## 2. The executors on the rows of the prefix -/

/-- How an executor ends on rows: it has processed them, or it is aborted at a batch. -/
def Told {E C : Type} (call : TransactionCall E C) (m : Batching Runtime Row BatchResult QueryError)
    (rows : List Row) (s : Runtime) : EStateM.Result QueryError Runtime (List Row) → Prop :=
  Ends (fun output t => ∃ batches tail found, m.Processed s rows batches tail t ∧
      output = givenRows batches ++ unstartedRows call found tail)
    (fun e t => ∃ batches rest, m.Aborted s rows batches rest e t)

section Csv

variable {E C Q S : Type} {p : CsvPrefix Q S} {files : Row → S → List (QueryResult Row)}
  {call : TransactionCall E C} {graph : GraphState} {s₀ : Runtime} {columns found : List Text}
  {n : Nat} {outers rows : List Row}

/-- A cut in the middle of the file is where the call is aborted, whatever rows would follow. -/
theorem CsvCut.aborted {fed : List Row} {e : QueryError} {t : Runtime}
    (h : CsvCut call (· = .ok found) s₀ fed e t) (hsteady : Steady call n)
    (hl : Linked call.hashing s₀.repository) (hs : Resolves call s₀) (more : List Row) :
    ∃ bs rest, (csvBatching call (· = .ok found)).Aborted s₀ (fed ++ more) bs rest e t := by
  cases h with
  | refused hfill _ hrefuses =>
    have hresolves := Trace.resolves (accounts_of_executes (Batching.Fills.executes hfill)) hl hs
    refine absurd hrefuses (hsteady.not_refuses hresolves fun found hfound => ?_)
    cases hfound
  | @failed bs u a front later k hfill hfed hsize hfull hfail =>
    have htake : (a :: (front ++ (later ++ more))).take k = a :: front := by
      rw [← List.cons_append, ← hfull]
      exact List.take_left
    have hrun : (csvBatching call (· = .ok found)).Aborted u
        (a :: (front ++ (later ++ more))) [] (a :: (front ++ (later ++ more))) e t := by
      refine .failed hsize (resolveBatchSize_pos hsize) ?_
      rw [htake]
      exact hfail
    refine ⟨bs ++ [], a :: (front ++ (later ++ more)), ?_⟩
    rw [hfed, List.append_assoc, List.cons_append, List.cons_append, List.append_assoc]
    exact Aborted.after hfill hrun

/-- The rows of the files bind what `LOAD CSV` binds. -/
def Binds (p : CsvPrefix Q S) (files : Row → S → List (QueryResult Row)) (columns : List Text)
    (outers : List Row) : Prop :=
  ∀ outer ∈ outers, ∀ source row, .ok row ∈ files outer source → row.order = csvColumns p columns

/-- A prefix that is evaluated on the snapshot opens each of its files there. -/
theorem Binds.opens (hbinds : Binds p files columns outers) (hglobal : ¬ p.global = true)
    (hrows : prefixRows p files ⟨columns, outers⟩ graph = .ok rows) :
    ∀ outer ∈ outers, ∃ lines, OuterInitial p files columns graph outer (.ok lines) := by
  unfold prefixRows at hrows
  rw [if_neg hglobal] at hrows
  obtain ⟨groups, hgroups, _⟩ := bind_eq_ok.mp hrows
  intro outer houter
  obtain ⟨group, hgroup⟩ := mapM_ok_of_mem hgroups outer houter
  obtain ⟨lines, hfile, hgroup⟩ := bind_eq_ok.mp hgroup
  obtain ⟨inputs, hinputs, _⟩ := bind_eq_ok.mp hgroup
  obtain ⟨source, hsource, hfile⟩ := bind_eq_ok.mp hfile
  cases hfile
  refine ⟨_, source, hsource, rfl, fun line hline => ?_⟩
  obtain ⟨made, hmade⟩ := mapM_ok_of_mem hinputs line hline
  obtain ⟨row, hrow, hread⟩ := bind_eq_ok.mp hmade
  subst hrow
  exact ⟨made, row, made, rfl, hbinds outer houter source row hline, hread, rfl⟩

section Outcome

variable (hinferred : call.callColumns (columnsBehind p columns) = .ok found)
  (hbinds : Binds p files columns outers)
  (hp : resolveSnapshot call.hashing s₀.commit s₀.repository = .ok graph)
  (hrows : prefixRows p files ⟨columns, outers⟩ graph = .ok rows) (hsteady : Steady call n)
  (hl : Linked call.hashing s₀.repository)

include hinferred hp hrows hsteady hl

/-- **A prefix that needs all its input** is read before the first batch. -/
theorem materializeGlobalCsvPrefix_ends (hglobal : p.global = true)
    (hst : initialCsvBatchState (p.before files call) columns = .ok st) :
    Ends (fun st' t => CsvRun call (· = .ok found) s₀ rows st' t ∧ Waits call (· = .ok found) st' t)
      (fun e t => ∃ bs rest, (csvBatching call (· = .ok found)).Aborted s₀ rows bs rest e t)
      (materializeGlobalCsvPrefix (p.before files call) outers st s₀) := by
  have hs : Resolves call s₀ := ⟨graph, hp⟩
  have hpending : st.pendingColumns = csvColumns p columns := by
    obtain ⟨_, _, hst⟩ := bind_eq_ok.mp hst
    cases hst
    rfl
  have hspill : ∀ outer, spillGlobalCsvOuter (p.before files call) outer s₀ = (do
      let lines ← fileRows p files graph outer
      lines.mapM id) := by
    intro outer
    unfold spillGlobalCsvOuter
    rw [transactionCsvRows_snapshot hp]
  unfold prefixRows at hrows
  rw [if_pos hglobal] at hrows
  obtain ⟨lines, hlines, hrows⟩ := bind_eq_ok.mp hrows
  obtain ⟨input, hinput, hrows⟩ := bind_eq_ok.mp hrows
  cases hrows
  have hfiles : (outers.mapM fun outer => spillGlobalCsvOuter (p.before files call) outer s₀) =
      .ok lines := by
    simp only [hspill]
    exact hlines
  have hread : executeReadRange (p.before files call) (p.before files call).prefixClauses
      ⟨st.pendingColumns, lines.flatten⟩ s₀ = .ok input := by
    rw [executeReadRange_snapshot hp, hpending]
    exact hinput
  unfold materializeGlobalCsvPrefix
  refine .reading (fun e hfailed => ?_) fun lines' hlines' => ?_
  · rw [hfiles] at hfailed
    cases hfailed
  · rw [hfiles] at hlines'
    cases hlines'
    refine .reading (fun e hfailed => ?_) fun input' hinput' => ?_
    · rw [hread] at hfailed
      cases hfailed
    · rw [hread] at hinput'
      cases hinput'
      have hcolumns : call.callColumns input.columns = .ok found := by
        rw [readRange_columns hinput]
        exact hinferred
      refine Ends.mono (appendCsvPrefix_ends (csvRun_initial hst).1 hcolumns) (fun _ _ h => h)
        fun e t hcut => ?_
      have haborted := hcut.aborted hsteady hl hs []
      rw [List.append_nil] at haborted
      exact haborted

include hbinds

/-- **A blind prefix** gives the rows it gives at the first commit. -/
theorem streamCsvOuters_initial (hglobal : ¬ p.global = true) (hblind : Blind p columns)
    (hst : initialCsvBatchState (p.before files call) columns = .ok st) :
    Ends (fun st' t => CsvRun call (· = .ok found) s₀ rows st' t ∧ Waits call (· = .ok found) st' t)
      (fun e t => ∃ bs rest, (csvBatching call (· = .ok found)).Aborted s₀ rows bs rest e t)
      (outers.foldlM (streamCsvOuter (p.before files call)) st s₀) := by
  have hs : Resolves call s₀ := ⟨graph, hp⟩
  obtain ⟨hrun, hwaits⟩ := csvRun_initial (P := (· = .ok found)) (s := s₀) hst
  have heach := eachOuter_initial (P := (· = .ok found)) hblind hl hp hinferred hrun hwaits
    (fun hsome => absurd rfl hsome) (hbinds.opens hglobal hrows)
  unfold prefixRows at hrows
  rw [if_neg hglobal] at hrows
  obtain ⟨groups, hgroups, hrows⟩ := bind_eq_ok.mp hrows
  cases hrows
  refine (streamCsvOuters_ends (fun line input hline => hline.lineRows.2 ▸ hinferred) heach hrun
    hwaits).mono (fun st' t h => ?_) fun e t h => ?_
  · obtain ⟨groups', hgroups', h⟩ := h
    have hmapped : outers.mapM (outerRows p files graph) = .ok groups' :=
      mapM_of_forall₂ (hgroups'.imp fun _ _ houter => houter.initial)
    rw [hmapped] at hgroups
    cases hgroups
    exact h
  · obtain ⟨fed, hfront, hstopped⟩ := h
    obtain ⟨more, hmore⟩ := hfront.initial hgroups
    rw [hmore]
    cases hstopped with
    | line _ hline =>
      obtain ⟨_, _, _, _, _, hline⟩ := hline
      cases hline
    | outer _ houter =>
      obtain ⟨_, _, houter, _⟩ := houter
      cases houter
    | batch hcut => exact hcut.aborted hsteady hl hs more

/-- **The CSV executor**, where its prefix is read before the first batch or is blind. -/
theorem csv_told (hreads : p.global = true ∨ Blind p columns)
    (hst : initialCsvBatchState (p.before files call) columns = .ok st) :
    Told call (csvBatching call (· = .ok found)) rows s₀
      ((do
        let result ← streamCsvBatches (p.before files call) ⟨columns, outers⟩
        pure result.rows) s₀) := by
  have hs : Resolves call s₀ := ⟨graph, hp⟩
  have hfiles : Ends (fun st' t => CsvRun call (· = .ok found) s₀ rows st' t ∧
        Waits call (· = .ok found) st' t)
      (fun e t => ∃ bs rest, (csvBatching call (· = .ok found)).Aborted s₀ rows bs rest e t)
      (streamCsvFiles (p.before files call) outers st s₀) := by
    unfold streamCsvFiles
    by_cases hglobal : p.global = true
    · rw [if_pos (show csvPrefixRequiresGlobalInput (p.before files call) = true from hglobal)]
      exact materializeGlobalCsvPrefix_ends hinferred hp hrows hsteady hl hglobal hst
    · rw [if_neg (show ¬ csvPrefixRequiresGlobalInput (p.before files call) = true from hglobal)]
      exact streamCsvOuters_initial hinferred hbinds hp hrows hsteady hl hglobal
        (hreads.resolve_left hglobal) hst
  have hbatches : Ends (fun result t => ∃ bs tail behind,
        (csvBatching call (· = .ok found)).Processed s₀ rows bs tail t ∧
          result.rows = givenRows bs ++ unstartedRows call behind tail)
      (fun e t => ∃ bs rest, (csvBatching call (· = .ok found)).Aborted s₀ rows bs rest e t)
      (streamCsvBatches (p.before files call) ⟨columns, outers⟩ s₀) := by
    unfold streamCsvBatches
    refine .reading (fun e hfailed => ?_) fun st' hst' => ?_
    · rw [hst] at hfailed
      cases hfailed
    rw [hst] at hst'
    cases hst'
    refine hfiles.bind (fun _ _ h => h) fun st₁ s₁ h => ?_
    refine Ends.bind (finishPendingCsvBatch_ends h.1 h.2) (fun e t hfailed => ?_) fun st₂ t h₂ => ?_
    · rcases hfailed with haborted | ⟨bs, rest, _, hfill, hrefuses⟩
      · exact haborted
      · have htrace := accounts_of_executes (Batching.Fills.executes hfill)
        refine absurd hrefuses (hsteady.not_refuses (Trace.resolves htrace hl hs) fun _ h => ?_)
        cases h
    · obtain ⟨bs, tail, hprocessed, houtput⟩ := h₂
      exact ⟨bs, tail, _, hprocessed, houtput⟩
  exact hbatches.bind (fun _ _ h => h) fun _ _ h => h

end Outcome

end Csv

section Others

variable {E C : Type} {call : TransactionCall E C} {source : StreamPrefix call} {n : Nat}
  {s₀ : Runtime} {graph : GraphState} {rows fed : List Row}
  {stream stream' : TransactionProgramStream}

/-- A call on rows that are there has one size, also where there is no row to ask it. -/
theorem processed_sized {k : Nat} {columns : List Text} {bs : List (Batch Row BatchResult)}
    {tail : List Row} {t : Runtime} (hk : ∀ a rest, rows = a :: rest → k = n)
    (h : (fixedBatching call k columns).Processed s₀ rows bs tail t) :
    (fixedBatching call n columns).Processed s₀ rows bs tail t := by
  cases rows with
  | nil =>
    cases h
    exact .done s₀
  | cons a rest =>
    obtain rfl := hk a rest rfl
    exact h

/-- **The materialised executor.** -/
theorem materialised_told (source : StreamPrefix call) (input : RowSet) (hsteady : Steady call n)
    (hl : Linked call.hashing s₀.repository) (hs : Resolves call s₀)
    (hcolumns : call.callColumns input.columns = .ok source.columns) :
    Told call (fixedBatching call n source.columns) input.rows s₀
      ((do
        let result ← executeTransactionCallControlled call input
        pure result.rows.rows) s₀) := by
  refine (executeTransactionCallControlled_ends (s := s₀) (P := (· = .ok source.columns))
    hcolumns).bind (fun e t h => ?_) fun result t h => ?_
  · rcases h with ⟨_, hrefuses⟩ | ⟨found, k, hfound, hk, hcase⟩
    · refine absurd hrefuses (hsteady.not_refuses hs fun found hfound => ?_)
      cases hfound
    · rw [hcolumns] at hfound
      cases hfound
      rcases hcase with ⟨bs, rest, haborted⟩ | ⟨bs, rest, _, _, hfill, hrefuses⟩
      · cases hinput : input.rows with
        | nil =>
          rw [hinput] at haborted
          cases haborted
        | cons a later =>
          obtain rfl := hsteady.size_only (hk a later hinput)
          rw [hinput] at haborted
          exact ⟨bs, rest, haborted⟩
      · have htrace := accounts_of_executes (Batching.Fills.executes hfill)
        refine absurd hrefuses (hsteady.not_refuses (Trace.resolves htrace hl hs) fun _ h => ?_)
        cases h
  · obtain ⟨k, bs, tail, hfound, hk, hprocessed, houtput, _⟩ := h
    rw [hcolumns] at hfound
    rw [← Except.ok.inj hfound] at hprocessed
    exact ⟨bs, tail, _, processed_sized (fun a rest ha => hsteady.size_only (hk a rest ha))
      hprocessed, houtput⟩

theorem Taken.pulled (hbind : source.bindings graph = rows.map .ok)
    (ht : Taken source graph fed stream) :
    ∃ later, rows = fed ++ later ∧ (stream.upstreamDone = true → later = []) := by
  have hinj : Function.Injective (Except.ok : Row → QueryResult Row) := fun _ _ h =>
    Except.ok.inj h
  obtain ⟨later, hlater⟩ := ht.front
  rw [hbind] at hlater
  obtain ⟨front, back, hsplit, hfront, hback⟩ := List.map_eq_append_iff.mp hlater
  rw [List.map_injective_iff.mpr hinj hfront] at hsplit
  refine ⟨back, hsplit, fun hdone => ?_⟩
  have hall := ht.drained hdone
  rw [hbind] at hall
  rw [List.map_injective_iff.mpr hinj hall] at hsplit
  exact List.self_eq_append_right.mp hsplit

theorem StreamRun.aborted {first : Row} {more later : List Row} {e : QueryError} {t : Runtime}
    (h : StreamRun source s₀ n fed stream) (hgo : stream.broken = false)
    (hmore : stream.upstreamDone = false) (hpos : 0 < n) (hle : (first :: more).length ≤ n)
    (hend : (first :: more).length = n ∨ later = [])
    (hbatch : executeBatch call source.columns (first :: more) [] stream.runtime = .error e t) :
    ∃ bs rest, (fixedBatching call n source.columns).Aborted s₀
      (fed ++ (first :: more ++ later)) bs rest e t := by
  cases h with
  | ended _ _ _ _ _ hdone _ =>
    rw [(hdone hgo).1] at hmore
    cases hmore
  | @opened bs hfill hfed _ _ =>
    have htake : (first :: (more ++ later)).take n = first :: more := by
      rcases hend with hfull | rfl
      · rw [← hfull]
        exact List.take_left
      · rw [List.append_nil]
        exact List.take_of_length_le hle
    have hrun : (fixedBatching call n source.columns).Aborted stream.runtime
        (first :: (more ++ later)) [] (first :: (more ++ later)) e t := by
      refine .failed rfl hpos ⟨source.columns, rfl, ?_⟩
      rw [htake]
      exact hbatch
    rw [hfed]
    exact ⟨bs ++ [], _, Aborted.after hfill hrun⟩

/-- **A pass fails with its batch only**, and there the call is aborted. -/
theorem PassCut.aborted (hbind : source.bindings graph = rows.map .ok) (hsteady : Steady call n)
    (h : StreamBetween source graph s₀ n fed stream) (hs : Resolves call stream.runtime)
    (hcut : PassCut source graph n fed stream e stream') :
    ∃ bs rest, (fixedBatching call n source.columns).Aborted s₀ rows bs rest e stream'.runtime := by
  cases hcut with
  | refused hrefused =>
    obtain ⟨_, hmem | hrefuses⟩ := hrefused
    · rw [hbind] at hmem
      obtain ⟨_, _, heq⟩ := List.mem_map.mp hmem
      cases heq
    · exact absurd hrefuses (hsteady.not_refuses hs fun _ h => h)
  | failed hgo hmore hpos hle hend ht hbatch =>
    -- the rows of the batch are the next ones of the prefix
    obtain ⟨later, hlater, hdrained⟩ := ht.pulled hbind
    rw [hlater, List.append_assoc]
    exact h.run.aborted hgo hmore hpos hle (hend.imp_right hdrained) hbatch

/-- What the passes of a stream come to. -/
def handedRows : EStateM.Result QueryError TransactionProgramStream Unit →
    EStateM.Result QueryError Runtime (List Row)
  | .ok _ stream => .ok stream.handed stream.runtime
  | .error e stream => .error e stream.runtime

/-- **The streaming executor**, with passes enough. -/
theorem streaming_told (source : StreamPrefix call)
    (hbind : source.bindings graph = rows.map .ok) (hsteady : Steady call n)
    (hl : Linked call.hashing s₀.repository)
    (hp : resolveSnapshot call.hashing source.prefixCommit s₀.repository = .ok graph)
    (hs : Resolves call s₀) {checks : List (QueryResult Unit)}
    (hchecks : ∀ check ∈ checks, check = .ok ()) (hlength : rows.length < checks.length) :
    Told call (fixedBatching call n source.columns) rows s₀
      (handedRows (runStream call source checks { runtime := s₀ })) := by
  have hn : Settles source graph s₀ n := fun first _ _ m hm => hsteady.size_only hm
  have hinitial : StreamBetween source graph s₀ n [] { runtime := s₀ } := streamBetween_initial
  have hends : Ends _ _ (runStream call source checks { runtime := s₀ }) :=
    runStream_ends hl hp hn hinitial
  cases h : runStream call source checks { runtime := s₀ } with
  | ok _ stream =>
    obtain ⟨fed, hbetween, hprogress⟩ := hends.ok h
    rw [List.nil_append] at hbetween
    obtain ⟨later, hlater, hdrained⟩ := hbetween.taken.pulled hbind
    have hfinished : stream.finished = true := by
      refine hprogress.resolve_right fun hle => ?_
      rw [hlater, List.length_append] at hlength
      omega
    rw [hdrained (hbetween.ends hfinished), List.append_nil] at hlater
    obtain ⟨bs, tail, hrun, hhanded⟩ := hbetween.run.processed
    rw [hlater]
    exact ⟨bs, tail, _, hrun, hhanded⟩
  | error e stream =>
    obtain ⟨fed, stream₁, hbetween, hcut⟩ := hends.error h
    rcases hcut with ⟨hmem, _⟩ | hcut
    · cases hchecks _ hmem
    · obtain ⟨bs, tail, hrun, _⟩ := hbetween.run.processed
      have hresolves := Trace.resolves (accounts_of_executes hrun.trace) hl hs
      exact hcut.aborted hbind hsteady hbetween hresolves

end Others

/-! ## 3. Agreement -/

section Agreement

variable {E C : Type} {call : TransactionCall E C} {rows : List Row} {s : Runtime}
  {m m' : Batching Runtime Row BatchResult QueryError}
  {run : EStateM.Result QueryError Runtime (List Row)}

/-- **Executors agree**: they make the same batches of the same rows and leave the same database
    file, or they are aborted at the same batch. -/
inductive Agreement (call : TransactionCall E C) (rows : List Row) (s : Runtime)
    (runs : EStateM.Result QueryError Runtime (List Row) → Prop) : Prop
  | returned (batches : List (Batch Row BatchResult)) (tail : List Row) (t : Runtime)
      (h : ∀ run, runs run → ∃ output, run = .ok output t ∧
        Accounted call rows batches tail output s t)
  | aborted (batches : List (Batch Row BatchResult)) (rest : List Row) (e : QueryError)
      (t : Runtime) (h : ∀ run, runs run → run = .error e t)
      (halted : Halted call rows batches rest s t)

theorem Told.returned {bs : List (Batch Row BatchResult)} {tail : List Row} {t : Runtime}
    (h : Told call m' rows s run) (hagree : Agree m m') (hp : m.Processed s rows bs tail t) :
    ∃ found, run = .ok (givenRows bs ++ unstartedRows call found tail) t := by
  cases run with
  | ok output t' =>
    obtain ⟨bs', tail', found, hp', rfl⟩ := h
    obtain ⟨rfl, rfl, rfl⟩ := hp.unique hagree hp'
    exact ⟨found, rfl⟩
  | error e t' =>
    obtain ⟨bs', rest, haborted⟩ := h
    exact absurd hp (haborted.not_processed hagree.symm)

theorem Told.aborted {bs : List (Batch Row BatchResult)} {rest : List Row} {t : Runtime}
    (h : Told call m' rows s run) (hagree : Agree m m') (ha : m.Aborted s rows bs rest e t) :
    run = .error e t := by
  cases run with
  | ok output t' =>
    obtain ⟨bs', tail', found, hp', _⟩ := h
    exact absurd hp' (ha.not_processed hagree)
  | error e' t' =>
    obtain ⟨bs', rest', ha'⟩ := h
    obtain ⟨_, _, rfl, rfl⟩ := ha.unique hagree ha'
    rfl

variable {Q S : Type}

/-- What `TransactionProgramStream::try_new` asks of a program; the last two stand for
    `build_program_prefix_stream` and `transaction_stream_output_policy`. -/
structure ProgramShape where
  /-- The first operand is a single query. -/
  single : Bool := true
  /-- The operands behind it. -/
  rest : Nat := 0
  transactionCalls : Nat := 1
  prefixStreams : Bool := true
  outputStreams : Bool := true

/-- The program gets a stream, and no other executor runs it. -/
def ProgramShape.streams (shape : ProgramShape) : Bool :=
  shape.single && shape.rest == 0 && shape.transactionCalls == 1 && shape.prefixStreams &&
    shape.outputStreams

/-- The stream of a program: the rows of its prefix are read at one commit. -/
def CsvPrefix.stream (p : CsvPrefix Q S) (files : Row → S → List (QueryResult Row)) (input : RowSet)
    (commit : HashId) {found : List Text}
    (inferred : call.callColumns (columnsBehind p input.columns) = .ok found) :
    StreamPrefix call where
  prefixCommit := commit
  bindings := fun graph =>
    match prefixRows p files input graph with
    | .ok rows => rows.map .ok
    | .error e => [.error e]
  inputColumns := columnsBehind p input.columns
  columns := found
  inferred := inferred

/-- The runs of the executors: all rows before the first batch, batch by batch with passes enough,
    and the CSV executor on a program that gets no stream. -/
inductive ExecutorRun (shape : ProgramShape) (pipeline : CsvTransactionPipeline E C Q S)
    (input : RowSet) (source : StreamPrefix pipeline.call) (rows : List Row) (s : Runtime) :
    EStateM.Result QueryError Runtime (List Row) → Prop
  | materialised : ExecutorRun shape pipeline input source rows s
      ((do
        let result ← executeTransactionCallControlled pipeline.call ⟨source.inputColumns, rows⟩
        pure result.rows.rows) s)
  | streaming {checks : List (QueryResult Unit)} (hgoes : ∀ check ∈ checks, check = .ok ())
      (hpasses : rows.length < checks.length) : ExecutorRun shape pipeline input source rows s
        (handedRows (runStream pipeline.call source checks { runtime := s }))
  | csv (h : shape.streams = false) : ExecutorRun shape pipeline input source rows s
      ((do
        let result ← streamCsvBatches pipeline input
        pure result.rows) s)

/-- **The executors agree on a prefix**, whatever the call, its batches, the files, and the database
    file and the commit it starts from. -/
def ExecutorsAgree (p : CsvPrefix Q S) (columns : List Text) (shape : ProgramShape) : Prop :=
  ∀ (E C : Type) (call : TransactionCall E C) (files : Row → S → List (QueryResult Row)) (n : Nat)
    (outers rows : List Row) (s : Runtime) (graph : GraphState) (found opened : List Text)
    (inferred : call.callColumns (columnsBehind p columns) = .ok found),
    Linked call.hashing s.repository → Steady call n →
      call.callColumns (csvColumns p columns) = .ok opened → Binds p files columns outers →
      resolveSnapshot call.hashing s.commit s.repository = .ok graph →
      prefixRows p files ⟨columns, outers⟩ graph = .ok rows →
        Agreement call rows s (ExecutorRun shape (p.before files call) ⟨columns, outers⟩
          (p.stream files ⟨columns, outers⟩ s.commit inferred) rows s)

variable {p : CsvPrefix Q S} {columns : List Text} {shape : ProgramShape}

/-- **Where no executor reads the prefix late, or the prefix is blind, they agree.** -/
theorem executorsAgree_of (h : shape.streams = true ∨ p.global = true ∨ Blind p columns) :
    ExecutorsAgree p columns shape := by
  intro E C call files n outers rows s graph found opened inferred hl hsteady hopened hbinds hp
    hrows
  have hs : Resolves call s := ⟨graph, hp⟩
  have hagree : Agree (fixedBatching call n found) (fixedBatching call n found) :=
    batching_agree (fun h h' => h.trans h'.symm) fun h h' => h.trans h'.symm
  have hmaterialised := materialised_told (p.stream files ⟨columns, outers⟩ s.commit inferred)
    ⟨columnsBehind p columns, rows⟩ hsteady hl hs inferred
  have htold : ∀ run, ExecutorRun shape (p.before files call) ⟨columns, outers⟩
      (p.stream files ⟨columns, outers⟩ s.commit inferred) rows s run →
        ∃ m, Agree (fixedBatching call n found) m ∧ Told call m rows s run := by
    intro run hrun
    cases hrun with
    | materialised => exact ⟨_, hagree, hmaterialised⟩
    | streaming hgoes hpasses =>
      refine ⟨_, hagree, streaming_told (p.stream files ⟨columns, outers⟩ s.commit inferred) ?_
        hsteady hl hp hs hgoes hpasses⟩
      unfold CsvPrefix.stream
      dsimp only
      rw [hrows]
    | csv hshape =>
      have hreads := h.resolve_left fun hstreams => by
        rw [hstreams] at hshape
        cases hshape
      have hst : initialCsvBatchState (p.before files call) columns =
          .ok { pendingColumns := csvColumns p columns, transactionColumns := opened } :=
        bind_eq_ok.mpr ⟨opened, hopened, rfl⟩
      refine ⟨_, batching_agree (fun h h' => ?_) (fun h h' => ?_),
        csv_told inferred hbinds hp hrows hsteady hl hreads hst⟩
      · exact h.trans (hsteady.size_only h').symm
      · exact h.trans (Except.ok.inj h').symm
  cases hrun : (do
      let result ← executeTransactionCallControlled call ⟨columnsBehind p columns, rows⟩
      pure result.rows.rows : TransactionTx (List Row)) s with
  | ok output t =>
    rw [hrun] at hmaterialised
    obtain ⟨bs, tail, _, hprocessed, _⟩ := hmaterialised
    refine .returned bs tail t fun run hexec => ?_
    obtain ⟨m, hm, hrun'⟩ := htold run hexec
    obtain ⟨behind, rfl⟩ := hrun'.returned hm hprocessed
    exact ⟨_, rfl, Processed.accounted hprocessed hl rfl⟩
  | error e t =>
    rw [hrun] at hmaterialised
    obtain ⟨bs, rest, haborted⟩ := hmaterialised
    refine .aborted bs rest e t (fun run hexec => ?_) (Aborted.halted haborted hl)
    obtain ⟨m, hm, hrun'⟩ := htold run hexec
    exact hrun'.aborted hm haborted

end Agreement

end Lithograph.Query.Transactions
