/-
  File:      Lithograph/Query/Transactions/Accounting.lean
  Subject:   What a call in transactions has done when it returns, and when it is cut off.

  * **`executeTransactionCallControlled_accounted`**: the materialised executor.
-/
import Lithograph.Query.Transactions.Batch

namespace Lithograph.Query.Transactions

open Std Library Storage Version
open Library.Batching (Executes Fills Processed Aborted)
open Version.Repository (Linked FirstParentPath)

/-! ## 1. Accounts of a call -/

section Accounts

variable {E C : Type} (call : TransactionCall E C)

/-- How a call cuts and executes: by a size, and with columns inferred for its output. -/
def batching (size : Runtime → Row → Nat → Prop) (columns : List Text → Prop) :
    Batching Runtime Row BatchResult QueryError where
  size := size
  exec rows s r t := columns r.columns ∧ r.outcome = batchOutcome call rows s ∧
    executeBatch call r.columns rows [] s = .ok (r.rows, r.broke) t
  fails rows s e t := ∃ found, columns found ∧ executeBatch call found rows [] s = .error e t
  stops := BatchResult.broke

/-- The commit a batch put on the branch. -/
def landedBatch (b : Batch Row BatchResult) : List HashId :=
  match b.result.outcome with
  | .ok commit => if call.mutated then [commit] else []
  | .error _ => []

/-- The rows that batches gave. -/
def givenRows (batches : List (Batch Row BatchResult)) : List Row :=
  batches.flatMap fun b => b.result.rows

/-- **The branch has grown by the commits of the batches**, in their order. -/
def GrownBy (batches : List (Batch Row BatchResult)) (r r' : Repository) : Prop :=
  ∀ base, r.branches[call.branch]? = some base → ∃ head, r'.branches[call.branch]? = some head ∧
    FirstParentPath r' base (batches.flatMap (landedBatch call)) head ∧
    ∀ b ∈ batches, ∀ commit, b.result.outcome = .ok commit →
      ∃ rest, FirstParentPath r' commit rest head

/-- **The account of a call that returned**, or of a stream between two of its passes: its input,
    batches, tail and output. -/
structure Accounted (input : List Row) (batches : List (Batch Row BatchResult)) (tail : List Row)
    (output : List Row) (s t : Runtime) : Prop where
  /-- The batches are consecutive slices of the input, and the tail was not started. -/
  slices : input = batches.flatMap Batch.rows ++ tail
  sizes : ∀ b ∈ batches, b.rows ≠ [] ∧ b.rows.length ≤ b.size
  /-- Only the last batch may be short, and only the last may end the call. -/
  full : ∀ before b after, batches = before ++ b :: after → after ≠ [] ∨ tail ≠ [] →
    b.rows.length = b.size ∧ (after ≠ [] → b.result.broke = false)
  /-- A tail is left behind a batch that failed under `ON ERROR BREAK`. -/
  unstarted : tail ≠ [] → ∃ before b e, batches = before ++ [b] ∧ b.result.outcome = .error e ∧
    call.spec.effective = .break
  /-- Each batch keeps its account, one after the other. -/
  accounts : Trace (Accounts call) s batches t
  history : GrownBy call batches s.repository t.repository
  /-- The output is what the batches gave, and the tail. -/
  output : ∃ columns, output = givenRows batches ++ unstartedRows call columns tail

/-- **The account of a call that an error ended**: the batches that were made, and then nothing;
    `rest` are the rows that were read and not executed. -/
structure Halted (input : List Row) (batches : List (Batch Row BatchResult)) (rest : List Row)
    (s t : Runtime) : Prop where
  slices : input = batches.flatMap Batch.rows ++ rest
  sizes : ∀ b ∈ batches, b.rows ≠ [] ∧ b.rows.length ≤ b.size
  full : ∀ before b after, batches = before ++ b :: after → after ≠ [] ∨ rest ≠ [] →
    b.rows.length = b.size
  accounts : ∃ u, Trace (Accounts call) s batches u ∧ t.repository = u.repository
  history : GrownBy call batches s.repository t.repository

end Accounts

variable {s t u : Runtime} {n : Nat} {batches : List (Batch Row BatchResult)} {input : List Row}
  {found : List Text}

section History

variable {E C : Type} {call : TransactionCall E C}

/-! ## 2. The branch -/

theorem resolveBatchSize_pos {row : Row} (h : resolveBatchSize call row s = .ok n) : 0 < n := by
  unfold resolveBatchSize at h
  split at h
  · cases h
    decide
  · obtain ⟨value, _, h⟩ := bind_eq_ok.mp h
    split at h
    · split at h
      · cases h
        omega
      · cases h
    · cases h

theorem FirstParentPath.kept {r r' : Repository} (hk : ∀ (c : HashId) (row : PersistedCommitRow),
    r.commits[c]? = some row → r'.commits[c]? = some row) : ∀ {cs : List HashId}
    {base head : HashId}, FirstParentPath r base cs head → FirstParentPath r' base cs head
  | [], _, _, h => h
  | c :: _, _, _, ⟨⟨row, hrow, hparent⟩, h⟩ => ⟨⟨row, hk c row hrow, hparent⟩, kept hk h⟩

theorem Trace.keeps {s t : Runtime} {batches : List (Batch Row BatchResult)}
    (h : Trace (Accounts call) s batches t) (hl : Linked call.hashing s.repository) :
    Keeps call.hashing s.repository t.repository := by
  induction h with
  | nil s => exact .refl hl
  | cons hb _ ih =>
    have hstep := hb.keeps hl
    exact hstep.trans (ih hstep.linked)

/-- **The branch grows by the commits of the batches.** -/
theorem Trace.history (h : Trace (Accounts call) s batches t)
    (hl : Linked call.hashing s.repository) : GrownBy call batches s.repository t.repository := by
  induction h with
  | nil s =>
    intro base hbase
    exact ⟨base, hbase, rfl, fun b hb => absurd hb List.not_mem_nil⟩
  | @cons s u t b bs hb hrest ih =>
    intro base hbase
    have hstep := hb.keeps hl
    have hkeeps := Trace.keeps hrest hstep.linked
    cases houtcome : b.result.outcome with
    | ok commit =>
      obtain ⟨_, _, ⟨base', hbase', hlands⟩, _⟩ := hb.committed commit houtcome
      obtain rfl : base = base' := Option.some.inj (hbase.symm.trans hbase')
      obtain ⟨hcommit, hpath⟩ := hlands.head hbase
      obtain ⟨head, hhead, hrestPath, hall⟩ := ih hstep.linked commit hcommit
      have hlanded : landedBatch call b = if call.mutated then [commit] else [] := by
        unfold landedBatch
        rw [houtcome]
      refine ⟨head, hhead, ?_, fun b' hb' commit' hcommit' => ?_⟩
      · rw [List.flatMap_cons, hlanded]
        have hpath := FirstParentPath.kept hkeeps.rows hpath
        split at hpath
        · rename_i hm
          rw [if_pos hm]
          exact ⟨hpath.1, hrestPath⟩
        · rename_i hm
          rw [if_neg hm]
          obtain rfl : base = commit := hpath
          exact hrestPath
      · rcases List.mem_cons.mp hb' with rfl | hb'
        · rw [houtcome] at hcommit'
          cases hcommit'
          exact ⟨_, hrestPath⟩
        · exact hall b' hb' commit' hcommit'
    | error e =>
      obtain ⟨hsame, _⟩ := hb.failed e houtcome
      obtain ⟨head, hhead, hrestPath, hall⟩ := ih hstep.linked base (by rw [hsame]; exact hbase)
      have hlanded : landedBatch call b = [] := by
        unfold landedBatch
        rw [houtcome]
      refine ⟨head, hhead, ?_, fun b' hb' commit' hcommit' => ?_⟩
      · rw [List.flatMap_cons, hlanded]
        exact hrestPath
      · rcases List.mem_cons.mp hb' with rfl | hb'
        · rw [houtcome] at hcommit'
          cases hcommit'
        · exact hall b' hb' commit' hcommit'

/-! ## 3. From batches to accounts -/

variable {size : Runtime → Row → Nat → Prop} {columns : List Text → Prop}

theorem Executes.accounts {b : Batch Row BatchResult}
    (h : (batching call size columns).Executes s b t) : Accounts call s b t := by
  obtain ⟨rows, n, found, own, broke, outcome⟩ := b
  obtain ⟨_, _, _, houtcome, hexec⟩ := h
  dsimp only at houtcome hexec
  subst houtcome
  obtain ⟨own', hown, haccounts⟩ := executeBatch_ends.ok hexec
  have hsame : own = own' := by
    rw [unstartedRows_nil, ite_self, List.append_nil] at hown
    exact hown
  rw [hsame]
  exact haccounts n

theorem accounts_of_executes (h : Trace (batching call size columns).Executes s batches t) :
    Trace (Accounts call) s batches t := by
  induction h with
  | nil s => exact .nil s
  | cons hb _ ih => exact .cons (Executes.accounts hb) ih

theorem sizes_of_executes (h : Trace (batching call size columns).Executes s batches t) :
    ∀ b ∈ batches, b.rows ≠ [] ∧ b.rows.length ≤ b.size := by
  induction h with
  | nil s => exact fun b hb => absurd hb List.not_mem_nil
  | cons hb _ ih =>
    intro b' hb'
    rcases List.mem_cons.mp hb' with rfl | hb'
    · obtain ⟨a, rest, hrows, _⟩ := hb.size
      refine ⟨?_, hb.bound⟩
      rw [hrows]
      exact List.cons_ne_nil a rest
    · exact ih b' hb'

/-- **Rows that were processed are accounted for.** -/
theorem Processed.accounted {tail output : List Row}
    (h : (batching call size columns).Processed s input batches tail t)
    (hl : Linked call.hashing s.repository)
    (houtput : output = givenRows batches ++ unstartedRows call found tail) :
    Accounted call input batches tail output s t := by
  have haccounts := accounts_of_executes h.trace
  refine ⟨h.flatten, sizes_of_executes h.trace, fun before b after hb => h.cut hb,
    fun htail => ?_, haccounts, Trace.history haccounts hl, found, houtput⟩
  obtain ⟨before, b, rfl, hstop⟩ := h.stop htail
  obtain ⟨u, _, hlast⟩ := trace_append.mp haccounts
  cases hlast with
  | cons hb _ =>
    cases houtcome : b.result.outcome with
    | ok commit =>
      obtain ⟨_, hgo, _⟩ := hb.committed commit houtcome
      rw [show b.result.broke = true from hstop] at hgo
      cases hgo
    | error e =>
      obtain ⟨_, _, hbroke, _⟩ := hb.failed e houtcome
      exact ⟨before, b, e, rfl, houtcome, hbroke.mp hstop⟩

theorem halted_of_executes {rest : List Row}
    (h : Trace (batching call size columns).Executes s batches u)
    (hl : Linked call.hashing s.repository) (hinput : input = batches.flatMap Batch.rows ++ rest)
    (hfull : ∀ before b after, batches = before ++ b :: after → after ≠ [] ∨ rest ≠ [] →
      b.rows.length = b.size) (hsame :
    t.repository = u.repository) : Halted call input batches rest s t := by
  have haccounts := accounts_of_executes h
  refine ⟨hinput, sizes_of_executes h, hfull, ⟨u, haccounts, hsame⟩, ?_⟩
  rw [hsame]
  exact Trace.history haccounts hl

theorem Fills.halted {rest : List Row} (h : Trace (batching call size columns).Fills s batches u)
    (hl : Linked call.hashing s.repository) (hinput : input = batches.flatMap Batch.rows ++ rest)
    (hsame : t.repository = u.repository) : Halted call input batches rest s t := by
  refine halted_of_executes (Batching.Fills.executes h) hl hinput
    (fun before b after hb _ => ?_) hsame
  subst hb
  obtain ⟨_, _, h⟩ := trace_append.mp h
  cases h with
  | cons hb _ => exact hb.full

theorem Processed.halted {tail : List Row}
    (h : (batching call size columns).Processed s input batches tail u)
    (hl : Linked call.hashing s.repository) (hsame : t.repository = u.repository) :
    Halted call input batches tail s t :=
  halted_of_executes h.trace hl h.flatten (fun _ _ _ hb hlast => (h.cut hb hlast).1) hsame

theorem fails_same {rows : List Row} {e : QueryError}
    (h : (batching call size columns).fails rows s e t) : t.repository = s.repository := by
  obtain ⟨found, _, h⟩ := h
  exact executeBatch_ends.error h

/-! ## 4. The materialised executor -/

/-- A check in front of a batch refuses; `P` is what is known of the columns that are inferred. -/
inductive Refuses (call : TransactionCall E C) (P : QueryResult (List Text) → Prop) (s : Runtime)
    (e : QueryError) : Prop
  | interrupted (h : checkInterrupted call s = .error e)
  | columns (h : P (.error e))
  | concurrency {row : Row} (h : validateConcurrency call row s = .error e)
  | size {row : Row} (h : resolveBatchSize call row s = .error e)
  | disjoint {rows : List Row} (h : validateDisjointExpressions call rows s = .error e)

/-- A call that ends with a check that refuses, behind full batches and in front of a row. -/
def RefusedBehind (m : Batching Runtime Row BatchResult QueryError)
    (refuses : Runtime → QueryError → Prop) (s : Runtime) (input : List Row) (e : QueryError)
    (t : Runtime) : Prop :=
  ∃ batches rest, input = batches.flatMap Batch.rows ++ rest ∧ rest ≠ [] ∧
    Trace m.Fills s batches t ∧ refuses t e

/-- The batching of one call: one size, and columns inferred once. -/
abbrev fixedBatching (call : TransactionCall E C) (n : Nat) (found : List Text) :
    Batching Runtime Row BatchResult QueryError :=
  batching call (fun _ _ k => k = n) (· = found)

/-- The rows behind a batch are added where the call ends with it. -/
def withTail (call : TransactionCall E C) (found : List Text) (remaining : List Row)
    (given : List Row × Bool) : List Row × Bool :=
  (given.1 ++ (if given.2 then unstartedRows call found remaining else []), given.2)

theorem appendFailedBatch_withTail (error : QueryError) (id : Nat) (rows remaining : List Row)
    (found : List Text) : appendFailedBatch call error id rows remaining found =
      (appendFailedBatch call error id rows [] found).map (withTail call found remaining) := by
  unfold appendFailedBatch
  split
  · rfl
  · split
    · show _ = Except.ok (_ ++ [], false)
      rw [List.append_nil]
    · rw [Except.map, unstartedRows_nil, List.append_nil]
      rfl

theorem executeBatch_eq (found : List Text) (rows remaining : List Row) (s : Runtime) :
    executeBatch call found rows remaining s =
      match executeBatchWithRetry call (call.environment s.nextBatchId) rows
        { s with nextBatchId := Mutation.saturatingSucc s.nextBatchId } with
      | .ok (.ok outcome) t =>
        (do
          let rows ← appendSuccessfulBatch call s.nextBatchId outcome
          pure (rows, false)) t
      | .ok (.error error) t =>
        lifted (appendFailedBatch call error s.nextBatchId rows remaining found) t
      | .error e t => .error e t := by
  unfold executeBatch nextTransactionId
  show EStateM.bind _ _ _ = _
  unfold EStateM.bind
  show EStateM.bind _ _ _ = _
  unfold EStateM.bind
  cases executeBatchWithRetry call (call.environment s.nextBatchId) rows
      { s with nextBatchId := Mutation.saturatingSucc s.nextBatchId } with
  | error e t => rfl
  | ok result t =>
    cases result with
    | ok outcome => rfl
    | error error => rfl

theorem executeBatch_withTail (found : List Text) (rows remaining : List Row) (s : Runtime) :
    Ends (fun given t => ∃ own, executeBatch call found rows [] s = .ok own t ∧
        given = withTail call found remaining own)
      (fun e t => executeBatch call found rows [] s = .error e t)
      (executeBatch call found rows remaining s) := by
  rw [executeBatch_eq, executeBatch_eq]
  cases executeBatchWithRetry call (call.environment s.nextBatchId) rows
      { s with nextBatchId := Mutation.saturatingSucc s.nextBatchId } with
  | error e t => rfl
  | ok result t =>
    cases result with
    | ok outcome =>
      refine ⟨_, rfl, ?_⟩
      unfold withTail
      rw [if_neg Bool.false_ne_true, List.append_nil]
    | error error =>
      dsimp only
      rw [appendFailedBatch_withTail error _ rows remaining]
      unfold lifted reading
      cases appendFailedBatch call error s.nextBatchId rows [] found with
      | ok given => exact ⟨given, rfl, rfl⟩
      | error e => rfl

/-- The output of a loop that returned. -/
def loopOutput (call : TransactionCall E C) (found : List Text)
    (batches : List (Batch Row BatchResult)) (tail : List Row) : List Row :=
  givenRows batches ++ unstartedRows call found tail

/-- **The loop of the materialised executor.** -/
theorem executeTransactionBatches_ends {P : QueryResult (List Text) → Prop} (hn : 0 < n)
    (passes : Nat) : ∀ {rows output : List Row} {s : Runtime}, rows.length ≤ passes →
      Ends (fun given t => ∃ bs tail, (fixedBatching call n found).Processed s rows bs tail t ∧
          given.1 = output ++ loopOutput call found bs tail ∧
          given.2 = bs.any fun b => b.result.broke)
        (fun e t => (∃ bs rest, (fixedBatching call n found).Aborted s rows bs rest e t) ∨
          RefusedBehind (fixedBatching call n found) (Refuses call P) s rows e t)
        (executeTransactionBatches call found n passes rows output s) := by
  have hnothing : ∀ output : List Row, output = output ++ loopOutput call found [] [] := by
    intro output
    unfold loopOutput givenRows
    rw [unstartedRows_nil]
    exact (List.append_nil output).symm
  induction passes with
  | zero =>
    intro rows output s hlength
    obtain rfl : rows = [] := List.eq_nil_of_length_eq_zero (Nat.le_zero.mp hlength)
    exact ⟨[], [], .done s, hnothing output, rfl⟩
  | succ passes ih =>
    intro rows output s hlength
    unfold executeTransactionBatches
    cases rows with
    | nil => exact ⟨[], [], .done s, hnothing output, rfl⟩
    | cons a rest =>
      refine .reading (fun e hcheck => ?_) fun _ _ =>
        (executeBatch_withTail found _ _ s).bind (fun e t hown => ?_) fun given u hown => ?_
      · exact .inr ⟨[], a :: rest, rfl, List.cons_ne_nil a rest, .nil s, .interrupted hcheck⟩
      · exact .inl ⟨[], a :: rest, .failed rfl hn ⟨found, rfl, hown⟩⟩
      · obtain ⟨⟨own, stop⟩, hown, rfl⟩ := hown
        have hexec : (fixedBatching call n found).exec ((a :: rest).take n) s
            ⟨found, own, stop, batchOutcome call ((a :: rest).take n) s⟩ u := ⟨rfl, rfl, hown⟩
        unfold withTail
        cases stop with
        | true =>
          refine ⟨_, _, .stopped rfl hn hexec rfl, ?_, rfl⟩
          unfold loopOutput givenRows
          simp
        | false =>
          have hrest : ((a :: rest).drop n).length ≤ passes := by
            rw [List.length_drop]
            omega
          refine (ih hrest).mono (fun given t h => ?_) fun e t h => ?_
          · obtain ⟨bs, tail, hprocessed, hout, hbroke⟩ := h
            refine ⟨_, tail, .more rfl hn hexec rfl hprocessed, ?_, hbroke⟩
            rw [hout]
            unfold loopOutput givenRows
            simp
          · rcases h with ⟨bs, left, haborted⟩ | ⟨bs, left, hrows, hleft, htrace, hrefuses⟩
            · exact .inl ⟨_, left, .more rfl hn hexec rfl haborted⟩
            · have hfull : ((a :: rest).take n).length = n := by
                refine Batching.length_take_of_drop fun hdrop => hleft ?_
                rw [hdrop] at hrows
                exact (List.nil_eq_append_iff.mp hrows).2
              refine .inr ⟨⟨(a :: rest).take n, n,
                ⟨found, own, false, batchOutcome call ((a :: rest).take n) s⟩⟩ :: bs, left, ?_,
                hleft, .cons ⟨Batching.executes_take rfl hn hexec, hfull, rfl⟩ htrace, hrefuses⟩
              rw [List.flatMap_cons, List.append_assoc, ← hrows]
              exact (List.take_append_drop n (a :: rest)).symm

theorem executeTransactionCallControlled_ends {P : QueryResult (List Text) → Prop}
    {input : RowSet} (hP : P (call.callColumns input.columns)) :
    Ends (fun result t => ∃ n bs tail, call.callColumns input.columns = .ok result.rows.columns ∧
        (∀ a rest, input.rows = a :: rest → resolveBatchSize call a s = .ok n) ∧
        (fixedBatching call n result.rows.columns).Processed s input.rows bs tail t ∧
        result.rows.rows = loopOutput call result.rows.columns bs tail ∧
        result.broke = bs.any fun b => b.result.broke)
      (fun e t => (t = s ∧ Refuses call P s e) ∨
        ∃ found n, call.callColumns input.columns = .ok found ∧
          (∀ a rest, input.rows = a :: rest → resolveBatchSize call a s = .ok n) ∧
          ((∃ bs rest, (fixedBatching call n found).Aborted s input.rows bs rest e t) ∨
            RefusedBehind (fixedBatching call n found) (Refuses call P) s input.rows e t))
      (executeTransactionCallControlled call input s) := by
  obtain ⟨inputColumns, rows⟩ := input
  refine .reading (fun e hcolumns => .inl ⟨rfl, .columns (hcolumns ▸ hP)⟩) fun found hcolumns => ?_
  cases rows with
  | nil =>
    refine ⟨0, [], [], hcolumns, fun a rest ha => ?_, .done s, ?_, rfl⟩
    · cases ha
    · show [] = givenRows [] ++ unstartedRows call found []
      rw [unstartedRows_nil]
      rfl
  | cons first rest =>
    refine .reading (fun e hcheck => .inl ⟨rfl, .concurrency hcheck⟩) fun _ _ =>
      .reading (fun e hcheck => .inl ⟨rfl, .size hcheck⟩) fun n hsize =>
      .reading (fun e hcheck => .inl ⟨rfl, .disjoint hcheck⟩) fun _ _ => ?_
    have hsize : ∀ a rest', first :: rest = a :: rest' → resolveBatchSize call a s = .ok n := by
      intro a rest' ha
      cases ha
      exact hsize
    refine (executeTransactionBatches_ends (P := P) (resolveBatchSize_pos (hsize _ _ rfl)) _
      (Nat.le_refl _)).bind (fun e t h => .inr ⟨found, n, hcolumns, hsize, h⟩) fun given t h => ?_
    obtain ⟨bs, tail, hprocessed, hout, hbroke⟩ := h
    exact ⟨n, bs, tail, hcolumns, hsize, hprocessed, hout, hbroke⟩

theorem Aborted.halted {size : Runtime → Row → Nat → Prop} {columns : List Text → Prop}
    {s t : Runtime} {input rest : List Row} {batches : List (Batch Row BatchResult)}
    {e : QueryError} (h : (batching call size columns).Aborted s input batches rest e t)
    (hl : Linked call.hashing s.repository) : Halted call input batches rest s t := by
  obtain ⟨u, a, rest', n, hinput, htrace, _, _, _, hfails⟩ := h.cut
  exact Fills.halted htrace hl hinput (fails_same hfails)

/-- **The materialised executor keeps its accounts.** -/
theorem executeTransactionCallControlled_accounted (hl : Linked call.hashing s.repository)
    (input : RowSet) : match executeTransactionCallControlled call input s with
    | .ok result t => ∃ batches tail, Accounted call input.rows batches tail result.rows.rows s t
    | .error _ t => ∃ batches rest, Halted call input.rows batches rest s t := by
  have hends : Ends _ _ (executeTransactionCallControlled call input s) :=
    executeTransactionCallControlled_ends (P := fun _ => True) trivial
  split
  · rename_i result t h
    obtain ⟨n, bs, tail, _, _, hprocessed, hout, _⟩ := hends.ok h
    exact ⟨bs, tail, Processed.accounted hprocessed hl hout⟩
  · rename_i e t h
    rcases hends.error h with ⟨rfl, _⟩ |
      ⟨found, n, _, _, ⟨bs, rest, haborted⟩ | ⟨bs, rest, hinput, _, htrace, _⟩⟩
    · have hnone : Trace (batching call (fun _ _ _ => True) fun _ => True).Fills t [] t := .nil t
      exact ⟨[], input.rows, Fills.halted hnone hl rfl rfl⟩
    · exact ⟨bs, rest, Aborted.halted haborted hl⟩
    · exact ⟨bs, rest, Fills.halted htrace hl hinput rfl⟩

end History

end Lithograph.Query.Transactions
