/-
  File:      Lithograph/Query/Transactions/CsvRuns.lean
  Subject:   The CSV executor keeps its accounts.

  * **`streamCsvBatches_accounted`**: the executor, over every file and every prefix.
-/
import Lithograph.Query.Transactions.Accounting

namespace Lithograph.Query.Transactions

open Std Library Storage Version
open Library.Batching (Executes Fills Processed Aborted)
open Version.Repository (Linked)

variable {input : RowSet} {s t : Runtime} {e : QueryError} {fed : List Row} {st st' : CsvBatchState}

section Csv

variable {E C : Type} {call : TransactionCall E C} {P : QueryResult (List Text) → Prop}

/-! ## 1. One batch of the file -/

/-- How the CSV executor cuts: the size is asked for each batch. -/
abbrev csvBatching (call : TransactionCall E C) (P : QueryResult (List Text) → Prop) :
    Batching Runtime Row BatchResult QueryError :=
  batching call (fun s a n => resolveBatchSize call a s = .ok n) fun found => P (.ok found)

/-- **A call on rows that fit one batch.** -/
theorem call_single {a : Row} {rest : List Row} {n : Nat} (hrows : input.rows = a :: rest)
    (hsize : resolveBatchSize call a s = .ok n) (hfit : (a :: rest).length ≤ n)
    (hcolumns : P (call.callColumns input.columns)) :
    Ends (fun result t => ∃ b, b.rows = a :: rest ∧ b.size = n ∧
        (csvBatching call P).Executes s b t ∧ result.rows.rows = b.result.rows ∧
        result.broke = b.result.broke)
      (fun e t => (t = s ∧ Refuses call P s e) ∨ (csvBatching call P).fails (a :: rest) s e t)
      (executeTransactionCallControlled call input s) := by
  have hone : ∀ k, (∀ a rest, input.rows = a :: rest → resolveBatchSize call a s = .ok k) →
      k = n := by
    intro k hk
    rw [hk a rest hrows] at hsize
    cases hsize
    rfl
  refine (executeTransactionCallControlled_ends hcolumns).mono (fun result t h => ?_)
    fun e t h => ?_
  · obtain ⟨k, bs, tail, hfound, hk, hprocessed, hout, hbroke⟩ := h
    have hkn := hone k hk
    rw [hrows] at hprocessed
    obtain ⟨b, rfl, rfl, hb, hexecutes⟩ := hprocessed.single fun m hm => by
      rw [show m = k from hm, hkn]
      exact hfit
    obtain ⟨brows, size, bresult⟩ := b
    obtain ⟨⟨a', rest', hcons, hsize'⟩, hbound, hfixed, houtcome, hexec⟩ := hexecutes
    obtain rfl : size = k := hsize'
    subst hb
    rw [hfound, ← hfixed] at hcolumns
    refine ⟨⟨a :: rest, size, bresult⟩, rfl, hkn, ⟨⟨a, rest, rfl, hk a rest hrows⟩, hbound,
      hcolumns, houtcome, hexec⟩, ?_, ?_⟩
    · rw [hout]
      unfold loopOutput givenRows
      rw [unstartedRows_nil]
      simp
    · rw [hbroke]
      simp
  · rcases h with hrefused | ⟨found, k, hfound, hk, hcase⟩
    · exact .inl hrefused
    · have hkn := hone k hk
      rw [hrows] at hcase
      rcases hcase with ⟨bs, left, haborted⟩ | ⟨bs, left, hleft, hnil, htrace, hrefuses⟩
      · obtain ⟨found', rfl, hfail⟩ := haborted.single fun m hm => by
          rw [show m = k from hm, hkn]
          exact hfit
        rw [hfound] at hcolumns
        exact .inr ⟨found', hcolumns, hfail⟩
      · -- a full batch would have left no row
        cases htrace with
        | nil => exact .inl ⟨rfl, hrefuses⟩
        | @cons _ _ _ b bs hb _ =>
          have hlength := congrArg List.length hleft
          have hfull : b.rows.length = k := hb.full.trans (by
            obtain ⟨_, _, _, hb⟩ := hb.size
            exact hb)
          rw [List.flatMap_cons, List.length_append, List.length_append, hfull, hkn] at hlength
          have hpos : 0 < left.length := List.length_pos_iff.mpr hnil
          omega

/-! ## 2. Between two rows of the file -/

/-- **What holds between two rows of the file**, of which `fed` came out of the prefix. -/
inductive CsvRun (call : TransactionCall E C) (P : QueryResult (List Text) → Prop) (s₀ : Runtime)
    (fed : List Row) (st : CsvBatchState) (s : Runtime) : Prop
  | waiting {bs : List (Batch Row BatchResult)} (hfill : Trace (csvBatching call P).Fills s₀ bs s)
      (hfed : fed = bs.flatMap Batch.rows ++ st.pendingRows) (hgoes : st.broken = false)
      (hrows : st.transactionRows = givenRows bs)
  | ended {bs : List (Batch Row BatchResult)} {b : Batch Row BatchResult} {tail : List Row}
      {u : Runtime} (hfill : Trace (csvBatching call P).Fills s₀ bs u)
      (hlast : (csvBatching call P).Executes u b s)
      (hfed : fed = bs.flatMap Batch.rows ++ (b.rows ++ tail)) (hfull : b.rows.length = b.size)
      (hstop : b.result.broke = true) (hbroken : st.broken = true)
      (hrows : st.transactionRows =
        givenRows (bs ++ [b]) ++ unstartedRows call st.transactionColumns tail)

/-- The rows that wait do not make a batch, and their columns are those the call expects. -/
def Waits (call : TransactionCall E C) (P : QueryResult (List Text) → Prop) (st : CsvBatchState)
    (s : Runtime) : Prop :=
  st.broken = false → ∀ a rest, st.pendingRows = a :: rest →
    (∃ n, resolveBatchSize call a s = .ok n ∧ st.pendingRows.length < n) ∧
      P (call.callColumns st.pendingColumns)

/-- The executor is cut off at a full batch that failed, or by a check in front of one. -/
inductive CsvCut (call : TransactionCall E C) (P : QueryResult (List Text) → Prop) (s₀ : Runtime)
    (fed : List Row) (e : QueryError) (t : Runtime) : Prop
  | refused {bs : List (Batch Row BatchResult)} {rest : List Row}
      (hfill : Trace (csvBatching call P).Fills s₀ bs t)
      (hfed : fed = bs.flatMap Batch.rows ++ rest) (h : Refuses call P t e)
  | failed {bs : List (Batch Row BatchResult)} {u : Runtime} {a : Row} {rows rest : List Row}
      {n : Nat} (hfill : Trace (csvBatching call P).Fills s₀ bs u)
      (hfed : fed = bs.flatMap Batch.rows ++ (a :: rows ++ rest))
      (hsize : resolveBatchSize call a u = .ok n) (hfull : (a :: rows).length = n)
      (hfail : (csvBatching call P).fails (a :: rows) u e t)

variable {Q S : Type} {pipeline : CsvTransactionPipeline E C Q S} {s₀ : Runtime}

theorem givenRows_append (bs bs' : List (Batch Row BatchResult)) :
    givenRows (bs ++ bs') = givenRows bs ++ givenRows bs' :=
  List.flatMap_append

theorem givenRows_single (b : Batch Row BatchResult) : givenRows [b] = b.result.rows := by
  unfold givenRows
  rw [List.flatMap_cons, List.flatMap_nil, List.append_nil]

/-- **Full batches are executed.** -/
theorem flushCompleteCsvBatches_ends (passes : Nat) : ∀ {bs : List (Batch Row BatchResult)}
    {st : CsvBatchState} {s : Runtime}, Trace (csvBatching pipeline.call P).Fills s₀ bs s →
      st.broken = false → st.transactionRows = givenRows bs → st.pendingRows.length ≤ passes →
      P (pipeline.call.callColumns st.pendingColumns) →
        Ends (fun st' t =>
            CsvRun pipeline.call P s₀ (bs.flatMap Batch.rows ++ st.pendingRows) st' t ∧
              Waits pipeline.call P st' t)
          (CsvCut pipeline.call P s₀ (bs.flatMap Batch.rows ++ st.pendingRows))
          (flushCompleteCsvBatches pipeline passes st s) := by
  induction passes with
  | zero =>
    intro bs st s hfill hgoes hrows hlength hcolumns
    refine ⟨.waiting hfill rfl hgoes hrows, fun _ a rest hpending => ?_⟩
    rw [hpending] at hlength
    exact absurd hlength (Nat.not_succ_le_zero _)
  | succ passes ih =>
    intro bs st s hfill hgoes hrows hlength hcolumns
    obtain ⟨pending, pendingColumns, output, outputColumns, broken⟩ := st
    dsimp only at hgoes hrows hlength hcolumns ⊢
    cases pending with
    | nil =>
      refine ⟨.waiting hfill rfl hgoes hrows, fun _ a rest hpending => ?_⟩
      cases hpending
    | cons a rest =>
      refine .reading (fun e hsize => .refused hfill rfl (.size hsize)) fun n hsize => ?_
      split
      · rename_i hshort
        refine ⟨.waiting hfill rfl hgoes hrows, fun _ a' rest' hpending => ?_⟩
        cases hpending
        exact ⟨⟨n, hsize, hshort⟩, hcolumns⟩
      · rename_i hlong
        obtain ⟨k, rfl⟩ :=
          Nat.exists_eq_succ_of_ne_zero (Nat.pos_iff_ne_zero.mp (resolveBatchSize_pos hsize))
        have hfull : (a :: rest.take k).length = k + 1 :=
          List.length_take_of_le (Nat.le_of_not_lt hlong)
        have hsplit : a :: rest = a :: rest.take k ++ rest.drop k := by
          rw [List.cons_append, List.take_append_drop]
        refine (call_single (P := P) rfl hsize (Nat.le_of_eq hfull) hcolumns).bind
          (fun e t h => ?_) fun result u h => ?_
        · rcases h with ⟨rfl, hrefuses⟩ | hfails
          · exact .refused hfill rfl hrefuses
          · exact .failed hfill (congrArg _ hsplit) hsize hfull hfails
        · obtain ⟨b, hb, hbsize, hexecutes, hgiven, hbroke⟩ := h
          have hbfull : b.rows.length = b.size := by rw [hb, hbsize, hfull]
          rw [← hb] at hsplit
          split
          · rename_i hstop
            refine ⟨.ended hfill hexecutes (congrArg _ hsplit) hbfull (hbroke ▸ hstop) rfl ?_,
              fun hgo => ?_⟩
            · rw [hrows, hgiven, givenRows_append, givenRows_single]
              rfl
            · cases hgo
          · rename_i hgo
            have hfills : (csvBatching pipeline.call P).Fills s b u := by
              refine ⟨hexecutes, hbfull, ?_⟩
              show b.result.broke = false
              rw [← hbroke]
              exact Bool.eq_false_iff.mpr hgo
            have hstep : Ends _ _ (flushCompleteCsvBatches pipeline passes ⟨rest.drop k,
                pendingColumns, output ++ result.rows.rows, result.rows.columns, broken⟩ u) :=
              ih (trace_snoc hfill hfills) hgoes
              (by rw [hrows, hgiven, givenRows_append, givenRows_single])
              (by
                rw [List.length_cons] at hlength
                rw [List.length_drop]
                omega) hcolumns
            rw [List.flatMap_append, List.flatMap_cons, List.flatMap_nil, List.append_nil,
              List.append_assoc, ← hsplit] at hstep
            exact hstep

/-! ## 3. Steps -/

/-- **Rows that come out of the prefix.** -/
theorem appendCsvPrefix_ends (hrun : CsvRun pipeline.call P s₀ fed st s)
    (hcolumns : P (pipeline.call.callColumns input.columns)) :
    Ends (fun st' t => CsvRun pipeline.call P s₀ (fed ++ input.rows) st' t ∧
        Waits pipeline.call P st' t)
      (CsvCut pipeline.call P s₀ (fed ++ input.rows)) (appendCsvPrefix pipeline st input s) := by
  unfold appendCsvPrefix
  cases hrun with
  | waiting hfill hfed hgoes hrows =>
    rw [if_neg (by rw [hgoes]; exact Bool.false_ne_true), hfed, List.append_assoc]
    exact flushCompleteCsvBatches_ends _ hfill hgoes hrows (Nat.le_refl _) hcolumns
  | @ended bs b tail u hfill hlast hfed hfull hstop hbroken hrows =>
    rw [if_pos hbroken]
    have hfed' : fed ++ input.rows = bs.flatMap Batch.rows ++ (b.rows ++ (tail ++ input.rows)) := by
      rw [hfed, List.append_assoc, List.append_assoc]
    refine ⟨.ended hfill hlast hfed' hfull hstop hbroken ?_, fun hgo => ?_⟩
    · rw [hrows, unstartedRows_append, List.append_assoc]
    · rw [show st.broken = false from hgo] at hbroken
      cases hbroken

/-- **The end of the file.** -/
theorem finishPendingCsvBatch_ends (hrun : CsvRun pipeline.call P s₀ fed st s)
    (hwaits : Waits pipeline.call P st s) :
    Ends (fun st' t => ∃ bs tail, (csvBatching pipeline.call P).Processed s₀ fed bs tail t ∧
        st'.transactionRows =
          givenRows bs ++ unstartedRows pipeline.call st'.transactionColumns tail)
      (fun e t => (∃ bs rest, (csvBatching pipeline.call P).Aborted s₀ fed bs rest e t) ∨
        ∃ bs rest, fed = bs.flatMap Batch.rows ++ rest ∧
          Trace (csvBatching pipeline.call P).Fills s₀ bs t ∧ Refuses pipeline.call P t e)
      (finishPendingCsvBatch pipeline st s) := by
  unfold finishPendingCsvBatch
  cases hrun with
  | @waiting bs hfill hfed hgoes hrows =>
    cases hpending : st.pendingRows with
    | nil =>
      rw [hpending] at hfed
      rw [if_pos (by simp)]
      refine ⟨_, [], hfed ▸ Processed.after hfill (.done s), ?_⟩
      rw [hrows, unstartedRows_nil, List.append_nil, List.append_nil]
    | cons a rest =>
      obtain ⟨⟨n, hsize, hshort⟩, hcolumns⟩ := hwaits hgoes a rest hpending
      rw [hpending] at hshort hfed
      rw [if_neg (by simp [hgoes])]
      refine (call_single (P := P) rfl hsize (Nat.le_of_lt hshort) hcolumns).bind
        (fun e t h => ?_) fun result u h => ?_
      · rcases h with ⟨rfl, hrefuses⟩ | hfails
        · exact .inr ⟨bs, a :: rest, hfed, hfill, hrefuses⟩
        · have htake : (a :: rest).take n = a :: rest :=
            List.take_of_length_le (Nat.le_of_lt hshort)
          refine .inl ⟨_, a :: rest, hfed ▸ Aborted.after hfill (.failed hsize ?_ ?_)⟩
          · exact resolveBatchSize_pos hsize
          · rw [htake]
            exact hfails
      · obtain ⟨b, hb, hbsize, hexecutes, hgiven, _⟩ := h
        have hlast : (csvBatching pipeline.call P).Processed s b.rows [b] [] u := by
          cases hbroke : b.result.broke with
          | false => exact hexecutes.last hbroke
          | true =>
            have hstop := hexecutes.stop hbroke (.inr rfl)
            rw [List.append_nil] at hstop
            exact hstop
        rw [← hb] at hfed
        refine ⟨_, [], hfed ▸ Processed.after hfill hlast, ?_⟩
        rw [hrows, hgiven, givenRows_append, givenRows_single, unstartedRows_nil, List.append_nil]
  | @ended bs b tail u hfill hlast hfed hfull hstop hbroken hrows =>
    rw [if_pos (.inl hbroken)]
    exact ⟨_, tail, hfed ▸ Processed.after hfill (hlast.stop hstop (.inl hfull)), hrows⟩

/-! ## 4. The rows of the file -/

/-- What one row of the file becomes: the clauses in front of the call read it. -/
def csvLineRows (pipeline : CsvTransactionPipeline E C Q S) (line : QueryResult Row)
    (s : Runtime) : QueryResult RowSet := do
  let row ← line
  executeReadRange pipeline pipeline.prefixClauses ⟨row.order, [row]⟩ s

theorem streamCsvRow_eq (line : QueryResult Row) : streamCsvRow pipeline st line s =
    (reading (csvLineRows pipeline line) >>= appendCsvPrefix pipeline st) s := by
  cases line with
  | ok row => rfl
  | error e => rfl

section Reading

variable (pipeline) (R : QueryResult Row → QueryResult RowSet → Prop)
  (T : Row → QueryResult (List (QueryResult Row)) → Prop)

/-- What becomes of a row of the file meets `R` at every step of a run over these rows. -/
def EachLine : List (QueryResult Row) → CsvBatchState → Runtime → Prop
  | [], _, _ => True
  | line :: lines, st, s => R line (csvLineRows pipeline line s) ∧
      ∀ st' t, streamCsvRow pipeline st line s = .ok st' t → EachLine lines st' t

/-- The same for every outer row, whose file meets `T` when it is opened. -/
def EachOuter : List Row → CsvBatchState → Runtime → Prop
  | [], _, _ => True
  | outer :: outers, st, s => T outer (transactionCsvRows pipeline outer s) ∧
      (∀ lines, transactionCsvRows pipeline outer s = .ok lines → EachLine pipeline R lines st s) ∧
      ∀ st' t, streamCsvOuter pipeline st outer s = .ok st' t → EachOuter outers st' t

/-- Rows of a file, each with what the clauses in front of the call made of it. -/
def LineRows (lines : List (QueryResult Row)) (rows : List Row) : Prop :=
  ∃ inputs, List.Forall₂ (fun line input => R line (.ok input)) lines inputs ∧
    rows = inputs.flatMap RowSet.rows

/-- The rows for one outer row. -/
def OuterRows (outer : Row) (rows : List Row) : Prop :=
  ∃ lines, T outer (.ok lines) ∧ LineRows R lines rows

/-- The rows of the files, up to some row of one of them. -/
def FrontRows (outers : List Row) (rows : List Row) : Prop :=
  ∃ front later groups last, outers = front ++ later ∧
    List.Forall₂ (OuterRows R T) front groups ∧ rows = groups.flatten ++ last ∧
    (last = [] ∨ ∃ outer rest lines lines', later = outer :: rest ∧ T outer (.ok (lines ++ lines')) ∧
      LineRows R lines last)

end Reading

variable {R : QueryResult Row → QueryResult RowSet → Prop}
  {T : Row → QueryResult (List (QueryResult Row)) → Prop}

/-- Where a run over the file is cut off, after `fed` came out of the prefix. -/
inductive CsvStopped (call : TransactionCall E C) (P : QueryResult (List Text) → Prop)
    (R : QueryResult Row → QueryResult RowSet → Prop)
    (T : Row → QueryResult (List (QueryResult Row)) → Prop) (s₀ : Runtime)
    (fed : List Row) (e : QueryError) (t : Runtime) : Prop
  | line {st : CsvBatchState} {line : QueryResult Row} (hrun : CsvRun call P s₀ fed st t)
      (h : R line (.error e))
  | outer {st : CsvBatchState} {outer : Row} (hrun : CsvRun call P s₀ fed st t)
      (h : T outer (.error e))
  | batch (hcut : CsvCut call P s₀ fed e t)

section Rows

variable (hP : ∀ line input, R line (.ok input) → P (pipeline.call.callColumns input.columns))

include hP

/-- **The rows of a file, one after the other.** -/
theorem streamCsvRows_ends : ∀ {lines : List (QueryResult Row)} {fed : List Row}
    {st : CsvBatchState} {s : Runtime}, EachLine pipeline R lines st s →
      CsvRun pipeline.call P s₀ fed st s → Waits pipeline.call P st s →
      Ends (fun st' t => ∃ rows, LineRows R lines rows ∧
          CsvRun pipeline.call P s₀ (fed ++ rows) st' t ∧ Waits pipeline.call P st' t)
        (fun e t => ∃ front later rows, lines = front ++ later ∧ LineRows R front rows ∧
          CsvStopped pipeline.call P R T s₀ (fed ++ rows) e t)
        (lines.foldlM (streamCsvRow pipeline) st s)
  | [], fed, st, s, _, hrun, hwaits => by
    refine ⟨[], ⟨[], .nil, rfl⟩, ?_, hwaits⟩
    rw [List.append_nil]
    exact hrun
  | line :: lines, fed, st, s, ⟨hmeets, hlater⟩, hrun, hwaits => by
    have hstep : Ends (fun st' t => ∃ input, R line (.ok input) ∧
          CsvRun pipeline.call P s₀ (fed ++ input.rows) st' t ∧ Waits pipeline.call P st' t)
        (fun e t => ∃ front later rows, line :: lines = front ++ later ∧ LineRows R front rows ∧
          CsvStopped pipeline.call P R T s₀ (fed ++ rows) e t)
        (streamCsvRow pipeline st line s) := by
      rw [streamCsvRow_eq]
      refine .reading (fun e hread => ?_) fun input hread => ?_
      · rw [← List.append_nil fed] at hrun
        exact ⟨[], line :: lines, [], rfl, ⟨[], .nil, rfl⟩, .line hrun (hread ▸ hmeets)⟩
      · rw [hread] at hmeets
        refine (appendCsvPrefix_ends hrun (hP line input hmeets)).mono
          (fun _ _ h => ⟨input, hmeets, h⟩) fun e t hcut => ?_
        refine ⟨[line], lines, _, rfl, ⟨[input], .cons hmeets .nil, rfl⟩, .batch ?_⟩
        rw [List.flatMap_cons, List.flatMap_nil, List.append_nil]
        exact hcut
    refine hstep.told.bind (fun _ _ h => h) fun st₁ s₁ h => ?_
    obtain ⟨hline, input, hmeets, hrun₁, hwaits₁⟩ := h
    refine (streamCsvRows_ends (hlater _ _ hline) hrun₁ hwaits₁).mono (fun st' t h => ?_)
      fun e t h => ?_
    · obtain ⟨rows, ⟨inputs, hinputs, rfl⟩, hrun', hwaits'⟩ := h
      refine ⟨_, ⟨input :: inputs, .cons hmeets hinputs, rfl⟩, ?_, hwaits'⟩
      rw [List.flatMap_cons, ← List.append_assoc]
      exact hrun'
    · obtain ⟨front, later, rows, rfl, ⟨inputs, hinputs, rfl⟩, hstopped⟩ := h
      refine ⟨line :: front, later, _, rfl, ⟨input :: inputs, .cons hmeets hinputs, rfl⟩, ?_⟩
      rw [List.flatMap_cons, ← List.append_assoc]
      exact hstopped

/-- **The files of the outer rows, one after the other.** -/
theorem streamCsvOuters_ends : ∀ {outers fed : List Row} {st : CsvBatchState} {s : Runtime},
    EachOuter pipeline R T outers st s → CsvRun pipeline.call P s₀ fed st s →
      Waits pipeline.call P st s →
      Ends (fun st' t => ∃ groups, List.Forall₂ (OuterRows R T) outers groups ∧
          CsvRun pipeline.call P s₀ (fed ++ groups.flatten) st' t ∧ Waits pipeline.call P st' t)
        (fun e t => ∃ rows, FrontRows R T outers rows ∧
          CsvStopped pipeline.call P R T s₀ (fed ++ rows) e t)
        (outers.foldlM (streamCsvOuter pipeline) st s)
  | [], fed, st, s, _, hrun, hwaits => by
    refine ⟨[], .nil, ?_, hwaits⟩
    rw [List.flatten_nil, List.append_nil]
    exact hrun
  | outer :: outers, fed, st, s, ⟨hopens, hlines, hlater⟩, hrun, hwaits => by
    have hstep : Ends (fun st' t => ∃ rows, OuterRows R T outer rows ∧
          CsvRun pipeline.call P s₀ (fed ++ rows) st' t ∧ Waits pipeline.call P st' t)
        (fun e t => ∃ rows, FrontRows R T (outer :: outers) rows ∧
          CsvStopped pipeline.call P R T s₀ (fed ++ rows) e t)
        (streamCsvOuter pipeline st outer s) := by
      refine .reading (fun e hfile => ?_) fun lines hfile => ?_
      · rw [← List.append_nil fed] at hrun
        exact ⟨[], ⟨[], outer :: outers, [], [], rfl, .nil, rfl, .inl rfl⟩,
          .outer hrun (hfile ▸ hopens)⟩
      · rw [hfile] at hopens
        refine (streamCsvRows_ends (T := T) hP (hlines lines hfile) hrun hwaits).mono
          (fun st' t h => ?_) fun e t h => ?_
        · obtain ⟨rows, hrows, h⟩ := h
          exact ⟨rows, ⟨lines, hopens, hrows⟩, h⟩
        · obtain ⟨front, later, rows, rfl, hrows, hstopped⟩ := h
          exact ⟨rows, ⟨[], outer :: outers, [], rows, rfl, .nil, rfl,
            .inr ⟨outer, outers, front, later, rfl, hopens, hrows⟩⟩, hstopped⟩
    refine hstep.told.bind (fun _ _ h => h) fun st₁ s₁ h => ?_
    obtain ⟨houter, rows, hrows, hrun₁, hwaits₁⟩ := h
    refine (streamCsvOuters_ends (hlater _ _ houter) hrun₁ hwaits₁).mono (fun st' t h => ?_)
      fun e t h => ?_
    · obtain ⟨groups, hgroups, hrun', hwaits'⟩ := h
      refine ⟨rows :: groups, .cons hrows hgroups, ?_, hwaits'⟩
      rw [List.flatten_cons, ← List.append_assoc]
      exact hrun'
    · obtain ⟨_, ⟨front, later, groups, last, rfl, hgroups, rfl, hlast⟩, hstopped⟩ := h
      refine ⟨rows ++ (groups.flatten ++ last), ⟨outer :: front, later, rows :: groups, last, rfl,
        .cons hrows hgroups, ?_, hlast⟩, ?_⟩
      · rw [List.flatten_cons, List.append_assoc]
      · rw [← List.append_assoc]
        exact hstopped

end Rows

/-! ## 5. The executor -/

theorem csvRun_initial {columns : List Text} {st : CsvBatchState} {s : Runtime}
    (h : initialCsvBatchState pipeline columns = .ok st) :
    CsvRun pipeline.call P s [] st s ∧ Waits pipeline.call P st s := by
  unfold initialCsvBatchState at h
  obtain ⟨found, _, h⟩ := bind_eq_ok.mp h
  cases h
  refine ⟨.waiting (.nil s) rfl rfl rfl, fun _ a rest hpending => ?_⟩
  cases hpending

variable {call : TransactionCall E C} {fed : List Row} {e : QueryError} {t : Runtime}

theorem CsvRun.halted {st : CsvBatchState} (h : CsvRun call P s₀ fed st t)
    (hl : Linked call.hashing s₀.repository) :
    ∃ batches rest, Halted call fed batches rest s₀ t := by
  cases h with
  | waiting hfill hfed _ _ => exact ⟨_, _, Fills.halted hfill hl hfed rfl⟩
  | ended hfill hlast hfed hfull hstop _ _ =>
    subst hfed
    exact ⟨_, _, Processed.halted (Processed.after hfill (hlast.stop hstop (.inl hfull))) hl rfl⟩

theorem CsvCut.halted (h : CsvCut call P s₀ fed e t) (hl : Linked call.hashing s₀.repository) :
    ∃ batches rest, Halted call fed batches rest s₀ t := by
  cases h with
  | refused hfill hfed _ => exact ⟨_, _, Fills.halted hfill hl hfed rfl⟩
  | failed hfill hfed _ _ hfail => exact ⟨_, _, Fills.halted hfill hl hfed (fails_same hfail)⟩

theorem CsvStopped.halted (h : CsvStopped call P R T s₀ fed e t)
    (hl : Linked call.hashing s₀.repository) :
    ∃ batches rest, Halted call fed batches rest s₀ t := by
  cases h with
  | line hrun _ => exact hrun.halted hl
  | outer hrun _ => exact hrun.halted hl
  | batch hcut => exact hcut.halted hl

section Input

variable (pipeline)

/-- A row of a file is read at some point of the run. -/
def ReadLine (line : QueryResult Row) (result : QueryResult RowSet) : Prop :=
  ∃ s, result = csvLineRows pipeline line s

/-- A file is opened at some point of the run. -/
def ReadOuter (outer : Row) (result : QueryResult (List (QueryResult Row))) : Prop :=
  ∃ s, result = transactionCsvRows pipeline outer s

/-- The rows of a prefix that needs all its input, at the start of the run. -/
def GlobalRows (s : Runtime) (input : RowSet) (rows : List Row) : Prop :=
  ∃ columns files found,
    (input.rows.mapM fun outer => spillGlobalCsvOuter pipeline outer s) = .ok files ∧
      executeReadRange pipeline pipeline.prefixClauses ⟨columns, files.flatten⟩ s = .ok found ∧
      rows = found.rows

/-- **The rows in front of the call**: those of each row of each file, in their order. -/
def CsvInput (s : Runtime) (input : RowSet) (rows : List Row) : Prop :=
  if csvPrefixRequiresGlobalInput pipeline then GlobalRows pipeline s input rows
  else ∃ groups, List.Forall₂ (OuterRows (ReadLine pipeline) (ReadOuter pipeline)) input.rows groups ∧
    rows = groups.flatten

/-- The rows that were read in front of the call when an error ends it. -/
def CsvFront (s : Runtime) (input : RowSet) (rows : List Row) : Prop :=
  if csvPrefixRequiresGlobalInput pipeline then rows = [] ∨ GlobalRows pipeline s input rows
  else FrontRows (ReadLine pipeline) (ReadOuter pipeline) input.rows rows

end Input

theorem eachLine_readLine : ∀ (lines : List (QueryResult Row)) (st : CsvBatchState) (s : Runtime),
    EachLine pipeline (ReadLine pipeline) lines st s
  | [], _, _ => trivial
  | _ :: lines, _, s => ⟨⟨s, rfl⟩, fun st' t _ => eachLine_readLine lines st' t⟩

theorem eachOuter_readOuter : ∀ (outers : List Row) (st : CsvBatchState) (s : Runtime),
    EachOuter pipeline (ReadLine pipeline) (ReadOuter pipeline) outers st s
  | [], _, _ => trivial
  | _ :: outers, st, s => ⟨⟨s, rfl⟩, fun lines _ => eachLine_readLine lines st s,
      fun st' t _ => eachOuter_readOuter outers st' t⟩

theorem finishPendingCsvBatch_halted (hl : Linked pipeline.call.hashing s₀.repository)
    (hrun : CsvRun pipeline.call P s₀ fed st s) (hwaits : Waits pipeline.call P st s)
    (h : finishPendingCsvBatch pipeline st s = .error e t) :
    ∃ batches rest, Halted pipeline.call fed batches rest s₀ t := by
  rcases (finishPendingCsvBatch_ends hrun hwaits).error h with ⟨bs, rest, haborted⟩ |
    ⟨bs, rest, hfed, htrace, _⟩
  · exact ⟨bs, rest, Aborted.halted haborted hl⟩
  · exact ⟨bs, rest, Fills.halted htrace hl hfed rfl⟩

theorem streamCsvFiles_ends (hl : Linked pipeline.call.hashing s.repository)
    (hinitial : initialCsvBatchState pipeline input.columns = .ok st) :
    Ends (fun st' t => ∃ rows, CsvInput pipeline s input rows ∧
        CsvRun pipeline.call (fun _ => True) s rows st' t ∧
        Waits pipeline.call (fun _ => True) st' t)
      (fun _ t => ∃ rows batches rest, CsvFront pipeline s input rows ∧
        Halted pipeline.call rows batches rest s t)
      (streamCsvFiles pipeline input.rows st s) := by
  obtain ⟨hrun, hwaits⟩ := csvRun_initial (P := fun _ => True) (s := s) hinitial
  unfold streamCsvFiles CsvInput CsvFront
  by_cases hglobal : csvPrefixRequiresGlobalInput pipeline
  · simp only [if_pos hglobal]
    have hnone : Trace (csvBatching pipeline.call fun _ => True).Fills s [] s := .nil s
    have hhalted : Halted pipeline.call [] [] [] s s := Fills.halted hnone hl rfl rfl
    refine .reading (fun _ _ => ⟨[], [], [], .inl rfl, hhalted⟩) fun files hfiles =>
      .reading (fun _ _ => ⟨[], [], [], .inl rfl, hhalted⟩) fun found hfound =>
      (appendCsvPrefix_ends hrun trivial).mono (fun st' t h => ?_) fun e t hcut => ?_
    · exact ⟨_, ⟨_, files, found, hfiles, hfound, rfl⟩, h⟩
    · obtain ⟨bs, rest, hhalted⟩ := hcut.halted hl
      exact ⟨_, bs, rest, .inr ⟨_, files, found, hfiles, hfound, rfl⟩, hhalted⟩
  · simp only [if_neg hglobal]
    refine (streamCsvOuters_ends (fun _ _ _ => trivial) (eachOuter_readOuter input.rows st s) hrun
      hwaits).mono (fun st' t h => ?_) fun e t h => ?_
    · obtain ⟨groups, hgroups, h⟩ := h
      exact ⟨groups.flatten, ⟨groups, hgroups, rfl⟩, h⟩
    · obtain ⟨rows, hrows, hstopped⟩ := h
      obtain ⟨bs, rest, hhalted⟩ := hstopped.halted hl
      exact ⟨rows, bs, rest, hrows, hhalted⟩

theorem CsvInput.front {rows : List Row} (h : CsvInput pipeline s input rows) :
    CsvFront pipeline s input rows := by
  unfold CsvInput at h
  unfold CsvFront
  split
  · rename_i hglobal
    rw [if_pos hglobal] at h
    exact .inr h
  · rename_i hglobal
    rw [if_neg hglobal] at h
    obtain ⟨groups, hgroups, rfl⟩ := h
    exact ⟨input.rows, [], groups, [], (List.append_nil _).symm, hgroups,
      (List.append_nil _).symm, .inl rfl⟩

/-- **The CSV executor keeps its accounts.** -/
theorem streamCsvBatches_accounted (hl : Linked pipeline.call.hashing s.repository)
    (input : RowSet) : match streamCsvBatches pipeline input s with
    | .ok result t => ∃ rows batches tail, CsvInput pipeline s input rows ∧
        Accounted pipeline.call rows batches tail result.rows s t
    | .error _ t => ∃ rows batches rest, CsvFront pipeline s input rows ∧
        Halted pipeline.call rows batches rest s t := by
  split
  · rename_i result t h
    unfold streamCsvBatches at h
    simp only [tx_bind_ok, lifted_ok] at h
    obtain ⟨st, _, ⟨hinitial, rfl⟩, st₁, s₁, hfiles, st₂, s₂, hfinish, h⟩ := h
    obtain ⟨rfl, rfl⟩ := tx_pure_ok.mp h
    obtain ⟨rows, hinput, hrun, hwaits⟩ := (streamCsvFiles_ends hl hinitial).ok hfiles
    obtain ⟨bs, tail, hprocessed, hrows⟩ := (finishPendingCsvBatch_ends hrun hwaits).ok hfinish
    exact ⟨rows, bs, tail, hinput, Processed.accounted hprocessed hl hrows⟩
  · rename_i e t h
    unfold streamCsvBatches at h
    simp only [tx_bind_err, lifted_err, lifted_ok] at h
    rcases h with ⟨_, rfl⟩ | ⟨st, _, ⟨hinitial, rfl⟩, hfiles | ⟨st₁, s₁, hfiles, hfinish | hpure⟩⟩
    · have hnone : Trace (csvBatching pipeline.call fun _ => True).Fills s [] s := .nil s
      refine ⟨[], [], [], ?_, Fills.halted hnone hl rfl rfl⟩
      unfold CsvFront
      split
      · exact .inl rfl
      · exact ⟨[], input.rows, [], [], rfl, .nil, rfl, .inl rfl⟩
    · exact (streamCsvFiles_ends hl hinitial).error hfiles
    · obtain ⟨rows, hinput, hrun, hwaits⟩ := (streamCsvFiles_ends hl hinitial).ok hfiles
      obtain ⟨bs, rest, hhalted⟩ := finishPendingCsvBatch_halted hl hrun hwaits hfinish
      exact ⟨rows, bs, rest, hinput.front, hhalted⟩
    · obtain ⟨_, _, _, hpure⟩ := hpure
      exact (tx_pure_err.mp hpure).elim

end Csv

end Lithograph.Query.Transactions
