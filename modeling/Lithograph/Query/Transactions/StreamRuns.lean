/-
  File:      Lithograph/Query/Transactions/StreamRuns.lean
  Subject:   The streaming executor keeps its accounts.

  * **`runStream_accounted`**: every number of passes.
  * **`batchAccounting`**: the three executors, on every repository that runs reach.
-/
import Lithograph.Query.Transactions.CsvRuns

namespace Lithograph.Query.Transactions

open Std Library Storage Version
open Library.Batching (Executes Fills Processed Aborted)
open Version.Repository (Linked Reaches linked_reaches byDepth fresh fresh_reached)

variable {e : QueryError} {first : Row}

section Stream

variable {E C : Type} {call : TransactionCall E C} {source : StreamPrefix call}
  {graph : GraphState} {fed : List Row} {stream stream' : TransactionProgramStream}

/-! ## 1. Pulling rows -/

theorem ends_onRuntime {α β : Type} {Q : α → Runtime → Prop} {W : QueryError → Runtime → Prop}
    {R : β → TransactionProgramStream → Prop} {V : QueryError → TransactionProgramStream → Prop}
    {f : TransactionTx α} {g : α → StreamTx β} (h : Ends Q W (f stream.runtime))
    (hw : ∀ e t, W e t → V e { stream with runtime := t })
    (hg : ∀ a t, Q a t → Ends R V (g a { stream with runtime := t })) :
    Ends R V ((onRuntime f >>= g) stream) := by
  show Ends R V (EStateM.bind (onRuntime f) g stream)
  unfold EStateM.bind onRuntime
  cases hf : f stream.runtime with
  | ok a t => exact hg a t (h.ok hf)
  | error e t => exact hw e t (h.error hf)

/-- **The rows that were pulled are the front of what the prefix gives.** -/
structure Taken (source : StreamPrefix call) (graph : GraphState) (fed : List Row)
    (stream : TransactionProgramStream) : Prop where
  position : stream.position = fed.length
  front : ∃ later, source.bindings graph = fed.map Except.ok ++ later
  drained : stream.upstreamDone = true → source.bindings graph = fed.map Except.ok

/-- The prefix is read at its own commit, whatever the branch has become. -/
def Pinned (source : StreamPrefix call) (graph : GraphState)
    (stream : TransactionProgramStream) : Prop :=
  resolveSnapshot call.hashing source.prefixCommit stream.runtime.repository = .ok graph

theorem prefixBindings_pinned (hp : Pinned source graph stream) :
    prefixBindings call source stream = .ok (source.bindings graph) := by
  unfold prefixBindings
  rw [show resolveSnapshot call.hashing source.prefixCommit stream.runtime.repository = .ok graph
    from hp]
  rfl

/-- A pass ends in front of its batch: a row of the prefix is an error, or a check refuses. -/
def Refused (source : StreamPrefix call) (graph : GraphState) (s : Runtime) (e : QueryError)
    (stream' : TransactionProgramStream) : Prop :=
  stream'.runtime = s ∧ (.error e ∈ source.bindings graph ∨ Refuses call (fun _ => False) s e)

/-- What pulling a row makes of a stream. -/
def TookRow (source : StreamPrefix call) (graph : GraphState) (fed : List Row)
    (stream : TransactionProgramStream) : Option Row → TransactionProgramStream → Prop
  | none, stream' =>
    stream' = { stream with upstreamDone := true } ∧ Taken source graph fed stream'
  | some row, stream' => stream.upstreamDone = false ∧
      stream' = { stream with position := stream.position + 1 } ∧
      Taken source graph (fed ++ [row]) stream'

theorem pullPrefixRow_ends (ht : Taken source graph fed stream) (hp : Pinned source graph stream) :
    Ends (TookRow source graph fed stream) (Refused source graph stream.runtime)
      (pullPrefixRow call source stream) := by
  unfold pullPrefixRow
  refine .reading (fun e h => nomatch h) fun done hdone => ?_
  cases hdone
  split
  · rename_i htrue
    refine ⟨?_, ht⟩
    rw [← htrue]
  · rename_i hfalse
    refine .reading (fun e h => ?_) fun found hrows => .reading (fun e h => nomatch h)
      fun position hposition => ?_
    · rw [prefixBindings_pinned hp] at h
      cases h
    · rw [prefixBindings_pinned hp] at hrows
      cases hrows
      cases hposition
      obtain ⟨later, hlater⟩ := ht.front
      cases hrow : (source.bindings graph)[stream.position]? with
      | none =>
        refine ⟨rfl, ht.position, ⟨later, hlater⟩, fun _ => ?_⟩
        have hlength := List.getElem?_eq_none_iff.mp hrow
        rw [ht.position, hlater, List.length_append, List.length_map] at hlength
        have hnil : later = [] := List.length_eq_zero_iff.mp (by omega)
        rw [hlater, hnil, List.append_nil]
      | some found =>
        cases found with
        | error e => exact ⟨rfl, .inl (List.mem_of_getElem? hrow)⟩
        | ok row =>
          have hhead : later[0]? = some (.ok row) := by
            rw [hlater, List.getElem?_append_right (by rw [List.length_map, ht.position])] at hrow
            rw [List.length_map, ht.position, Nat.sub_self] at hrow
            exact hrow
          cases later with
          | nil => cases hhead
          | cons first later =>
            cases hhead
            refine ⟨Bool.eq_false_iff.mpr hfalse, rfl, ?_, ⟨later, ?_⟩, fun hdone => ?_⟩
            · rw [List.length_append, List.length_singleton, ← ht.position]
            · rw [hlater, List.map_append, List.append_assoc]
              rfl
            · exact absurd hdone hfalse

/-! ## 2. Filling a batch -/

/-- What pulling may change of a stream, with the rows that came to wait for their batch. -/
def Pulled (more : List Row) (stream stream' : TransactionProgramStream) : Prop :=
  stream' = { stream with
    position := stream'.position
    upstreamDone := stream'.upstreamDone
    pendingInput := stream.pendingInput ++ more }

/-- **The rows of a batch.** -/
theorem fillPendingBatch_ends {n : Nat} (passes : Nat) : ∀ {fed : List Row}
    {stream : TransactionProgramStream}, Taken source graph fed stream →
      Pinned source graph stream → n ≤ stream.pendingInput.length + passes →
      stream.pendingInput.length ≤ n →
      Ends (fun _ stream' => ∃ more, Pulled more stream stream' ∧
          Taken source graph (fed ++ more) stream' ∧ stream'.pendingInput.length ≤ n ∧
          (stream'.pendingInput.length = n ∨ stream'.upstreamDone = true))
        (Refused source graph stream.runtime) (fillPendingBatch call source n passes stream) := by
  have hstay : ∀ {fed : List Row} {stream stream' : TransactionProgramStream},
      Pulled [] stream stream' → Taken source graph fed stream' →
      stream'.pendingInput.length ≤ n →
      (stream'.pendingInput.length = n ∨ stream'.upstreamDone = true) →
      ∃ more, Pulled more stream stream' ∧ Taken source graph (fed ++ more) stream' ∧
        stream'.pendingInput.length ≤ n ∧
        (stream'.pendingInput.length = n ∨ stream'.upstreamDone = true) := by
    intro fed stream stream' hpulled ht hle hend
    refine ⟨[], hpulled, ?_, hle, hend⟩
    rw [List.append_nil]
    exact ht
  have hsame : ∀ stream : TransactionProgramStream, Pulled [] stream stream := by
    intro stream
    unfold Pulled
    rw [List.append_nil]
  induction passes with
  | zero =>
    intro fed stream ht hp hpasses hle
    exact hstay (hsame stream) ht hle (.inl (Nat.le_antisymm hle hpasses))
  | succ passes ih =>
    intro fed stream ht hp hpasses hle
    unfold fillPendingBatch
    refine .reading (fun e h => nomatch h) fun goes hgoes => ?_
    cases hgoes
    split
    · rename_i htrue
      rw [Bool.and_eq_true, decide_eq_true_eq] at htrue
      refine (pullPrefixRow_ends ht hp).bind (fun _ _ h => h) fun found stream₁ hpull => ?_
      cases found with
      | none =>
        obtain ⟨rfl, ht₁⟩ := hpull
        refine hstay ?_ ht₁ hle (.inr rfl)
        unfold Pulled
        rw [List.append_nil]
      | some row =>
        obtain ⟨_, rfl, ht₁⟩ := hpull
        have hlength : (stream.pendingInput ++ [row]).length = stream.pendingInput.length + 1 := by
          rw [List.length_append, List.length_singleton]
        refine .writing (.mono (ih ⟨ht₁.position, ht₁.front, ht₁.drained⟩ hp ?_ ?_)
          (fun _ stream' h => ?_) fun _ _ h => h)
        · dsimp only
          omega
        · dsimp only
          omega
        · obtain ⟨more, hpulled, ht', hle', hend⟩ := h
          refine ⟨row :: more, ?_, ?_, hle', hend⟩
          · unfold Pulled at hpulled ⊢
            rw [hpulled, List.append_assoc]
            rfl
          · rw [List.append_assoc] at ht'
            exact ht'
    · rename_i hfalse
      refine hstay (hsame stream) ht hle ?_
      rw [Bool.and_eq_true, decide_eq_true_eq, not_and_or] at hfalse
      rcases hfalse with hfull | hdone
      · exact .inl (Nat.le_antisymm hle (Nat.le_of_not_lt hfull))
      · exact .inr (by simpa using hdone)

theorem startStream_ends : Ends (fun _ stream' => ∃ m,
      stream' = { stream with concurrencyValidated := true, batchSize := some m } ∧
      (stream.batchSize = some m ∨
        stream.batchSize = none ∧ resolveBatchSize call first stream.runtime = .ok m))
    (Refused source graph stream.runtime) (startStream call first stream) := by
  refine .reading (fun e hcheck => ⟨rfl, .inr ?_⟩) fun _ _ => .writing
    (.reading (fun e hsize => ⟨rfl, .inr ?_⟩) fun m hsize => ⟨m, rfl, ?_⟩)
  · split at hcheck
    · cases hcheck
    · exact .concurrency hcheck
  · split at hsize
    · cases hsize
    · exact .size hsize
  · split at hsize
    · rename_i k hk
      cases hsize
      exact .inl hk
    · rename_i hnone
      exact .inr ⟨hnone, hsize⟩

/-- **A batch is started by its first row.** -/
theorem ensureBatchStarted_ends (ht : Taken source graph fed stream)
    (hp : Pinned source graph stream) (hidle : stream.pendingInput = []) :
    Ends (fun started stream' =>
        (started = false ∧ stream' = { stream with upstreamDone := true, finished := true } ∧
          Taken source graph fed stream') ∨
        started = true ∧ stream.upstreamDone = false ∧ ∃ first m,
          (stream.batchSize = some m ∨
            stream.batchSize = none ∧ resolveBatchSize call first stream.runtime = .ok m) ∧
          stream' = { stream with
            position := stream.position + 1
            concurrencyValidated := true
            batchSize := some m
            pendingInput := [first] } ∧ Taken source graph (fed ++ [first]) stream')
      (Refused source graph stream.runtime) (ensureBatchStarted call source stream) := by
  unfold ensureBatchStarted
  refine .reading (fun e h => nomatch h) fun waiting hwaiting => ?_
  cases hwaiting
  rw [if_neg (by rw [hidle]; simp)]
  refine (pullPrefixRow_ends ht hp).bind (fun _ _ h => h) fun found stream₁ hpull => ?_
  cases found with
  | none =>
    obtain ⟨rfl, ht₁⟩ := hpull
    exact .inl ⟨rfl, rfl, ht₁.position, ht₁.front, ht₁.drained⟩
  | some first =>
    obtain ⟨hmore, rfl, ht₁⟩ := hpull
    refine startStream_ends.bind (fun _ _ h => h) fun _ stream₂ hstart => ?_
    obtain ⟨m, rfl, hsize⟩ := hstart
    refine .inr ⟨rfl, hmore, first, m, hsize, ?_, ht₁.position, ht₁.front, ht₁.drained⟩
    rw [hidle]
    rfl

/-- **A batch is executed** on the rows that wait. -/
theorem executePendingBatch_ends (graph : GraphState) : Ends (fun _ stream' => ∃ own broke t,
      executeBatch call source.columns stream.pendingInput [] stream.runtime = .ok (own, broke) t ∧
      stream' = { stream with
        runtime := t
        pendingInput := []
        broken := broke
        handed := stream.handed ++ own })
    (fun e stream' => Refused source graph stream.runtime e stream' ∨
      executeBatch call source.columns stream.pendingInput [] stream.runtime =
        .error e stream'.runtime)
    (executePendingBatch call source stream) := by
  refine .reading (fun e h => nomatch h) fun rows hrows => .writing ?_
  cases hrows
  refine ends_onRuntime ends_reading (fun e t h => .inl ⟨h.2, .inr (.disjoint h.1)⟩) fun _ t h => ?_
  obtain ⟨_, rfl⟩ := h
  refine ends_onRuntime ends_self (fun e t h => .inr h) fun given t h => ?_
  exact ⟨given.1, given.2, t, h, rfl⟩

/-- **The rows behind a batch that ended the call.** -/
theorem pullUnstartedRows_ends (passes : Nat) : ∀ {fed inputs : List Row}
    {stream : TransactionProgramStream}, Taken source graph fed stream →
      Pinned source graph stream →
      Ends (fun rows stream' => ∃ more, rows = inputs ++ more ∧
          stream' = { stream with
            position := stream'.position
            upstreamDone := stream'.upstreamDone } ∧
          Taken source graph (fed ++ more) stream' ∧
          (more.length = passes ∨ stream'.upstreamDone = true) ∧
          (stream.upstreamDone = true → more = [] ∧ stream'.upstreamDone = true))
        (Refused source graph stream.runtime)
        (pullUnstartedRows call source passes inputs stream) := by
  induction passes with
  | zero =>
    intro fed inputs stream ht hp
    refine ⟨[], (List.append_nil _).symm, rfl, ?_, .inl rfl, fun hdone => ⟨rfl, hdone⟩⟩
    rw [List.append_nil]
    exact ht
  | succ passes ih =>
    intro fed inputs stream ht hp
    unfold pullUnstartedRows
    refine (pullPrefixRow_ends ht hp).bind (fun _ _ h => h) fun found stream₁ hpull => ?_
    cases found with
    | none =>
      obtain ⟨rfl, ht₁⟩ := hpull
      refine ⟨[], (List.append_nil _).symm, rfl, ?_, .inr rfl, fun _ => ⟨rfl, rfl⟩⟩
      rw [List.append_nil]
      exact ht₁
    | some row =>
      obtain ⟨hmore, rfl, ht₁⟩ := hpull
      refine (ih ht₁ hp).mono (fun rows stream' h => ?_) fun _ _ h => h
      obtain ⟨more, rfl, hstream', ht', hend, _⟩ := h
      refine ⟨row :: more, ?_, hstream', ?_, ?_, fun hdone => ?_⟩
      · rw [List.append_assoc]
        rfl
      · rw [List.append_assoc] at ht'
        exact ht'
      · rcases hend with hlength | hdone
        · exact .inl (congrArg (· + 1) hlength)
        · exact .inr hdone
      · rw [hdone] at hmore
        cases hmore

/-! ## 3. One pass -/

variable {s₀ : Runtime} {n : Nat}

/-- **What the batches of a stream have come to**, after `fed` was pulled. -/
inductive StreamRun (source : StreamPrefix call) (s₀ : Runtime) (n : Nat) (fed : List Row)
    (stream : TransactionProgramStream) : Prop
  | opened {bs : List (Batch Row BatchResult)}
      (hfill : Trace (fixedBatching call n source.columns).Fills s₀ bs stream.runtime)
      (hfed : fed = bs.flatMap Batch.rows) (hgoes : stream.broken = false)
      (hhanded : stream.handed = givenRows bs)
  | ended {bs : List (Batch Row BatchResult)} {b : Batch Row BatchResult} {tail : List Row}
      {u : Runtime} (hfill : Trace (fixedBatching call n source.columns).Fills s₀ bs u)
      (hlast : (fixedBatching call n source.columns).Executes u b stream.runtime)
      (hfed : fed = bs.flatMap Batch.rows ++ (b.rows ++ tail))
      (hstop : stream.broken = b.result.broke)
      (hcut : b.rows.length = b.size ∨ (stream.upstreamDone = true ∧ tail = []))
      (hdone : stream.broken = false → stream.upstreamDone = true ∧ tail = [])
      (hhanded : stream.handed = givenRows (bs ++ [b]) ++ unstartedRows call source.columns tail)

/-- What holds between two passes. -/
structure StreamBetween (source : StreamPrefix call) (graph : GraphState) (s₀ : Runtime) (n : Nat)
    (fed : List Row) (stream : TransactionProgramStream) : Prop where
  run : StreamRun source s₀ n fed stream
  taken : Taken source graph fed stream
  idle : stream.pendingInput = []
  size : (stream.batchSize = some n ∧ 0 < n) ∨ (stream.batchSize = none ∧ fed = [])
  ends : stream.finished = true → stream.upstreamDone = true

theorem StreamRun.processed (h : StreamRun source s₀ n fed stream) :
    ∃ bs tail, (fixedBatching call n source.columns).Processed s₀ fed bs tail stream.runtime ∧
      stream.handed = givenRows bs ++ unstartedRows call source.columns tail := by
  cases h with
  | @opened bs hfill hfed _ hhanded =>
    have hrun := Processed.after hfill (.done stream.runtime)
    rw [List.append_nil, List.append_nil, ← hfed] at hrun
    refine ⟨bs, [], hrun, ?_⟩
    rw [hhanded, unstartedRows_nil, List.append_nil]
  | @ended bs b tail u hfill hlast hfed hstop hcut hdone hhanded =>
    subst hfed
    refine ⟨_, tail, Processed.after hfill ?_, hhanded⟩
    cases hbroke : b.result.broke with
    | true => exact hlast.stop hbroke (hcut.imp_right And.right)
    | false =>
      rw [hbroke] at hstop
      obtain ⟨_, rfl⟩ := hdone hstop
      rw [List.append_nil]
      exact hlast.last hbroke

theorem StreamRun.pinned (h : StreamRun source s₀ n fed stream)
    (hl : Linked call.hashing s₀.repository)
    (hp : resolveSnapshot call.hashing source.prefixCommit s₀.repository = .ok graph) :
    Pinned source graph stream := by
  obtain ⟨bs, tail, hrun, _⟩ := h.processed
  exact (Trace.keeps (accounts_of_executes hrun.trace) hl).pinned hl hp

/-- The size of the batches is settled at the first row, at the start of the run. -/
def Settles (source : StreamPrefix call) (graph : GraphState) (s₀ : Runtime) (n : Nat) : Prop :=
  ∀ first later, source.bindings graph = .ok first :: later →
    ∀ m, resolveBatchSize call first s₀ = .ok m → m = n

theorem StreamBetween.settled {m : Nat} {stream₁ : TransactionProgramStream}
    (h : StreamBetween source graph s₀ n fed stream) (hn : Settles source graph s₀ n)
    (ht : Taken source graph (fed ++ [first]) stream₁) (hsize : stream.batchSize = some m ∨
      stream.batchSize = none ∧ resolveBatchSize call first stream.runtime = .ok m) :
    m = n ∧ 0 < n := by
  rcases hsize with hm | ⟨hnone, hm⟩
  · rcases h.size with ⟨hn, hpos⟩ | ⟨hnone, _⟩
    · rw [hm] at hn
      exact ⟨Option.some.inj hn, hpos⟩
    · rw [hm] at hnone
      cases hnone
  · rcases h.size with ⟨hsome, _⟩ | ⟨_, rfl⟩
    · rw [hsome] at hnone
      cases hnone
    · obtain ⟨later, hlater⟩ := ht.front
      -- nothing was executed yet, so the first row is checked at the start of the run
      have hruntime : stream.runtime = s₀ := by
        obtain ⟨bs, tail, hrun, _⟩ := h.run.processed
        cases hrun
        rfl
      rw [hruntime] at hm
      obtain rfl : m = n := hn first later hlater m hm
      exact ⟨rfl, resolveBatchSize_pos hm⟩

theorem StreamRun.next {more : List Row} {own : List Row} {broke : Bool} {t : Runtime}
    (h : StreamRun source s₀ n fed stream) (hgo : stream.broken = false)
    (hmore : stream.upstreamDone = false) (hle : (first :: more).length ≤ n)
    (hend : (first :: more).length = n ∨ stream'.upstreamDone = true)
    (hbatch : executeBatch call source.columns (first :: more) [] stream.runtime =
      .ok (own, broke) t) (hruntime : stream'.runtime = t) (hbroken : stream'.broken = broke)
    (hhanded : stream'.handed = stream.handed ++ own) :
    StreamRun source s₀ n (fed ++ (first :: more)) stream' := by
  cases h with
  | ended _ _ _ _ _ hdone _ =>
    rw [(hdone hgo).1] at hmore
    cases hmore
  | @opened bs hfill hfed _ hgiven =>
    have hexecutes : (fixedBatching call n source.columns).Executes stream.runtime
        ⟨first :: more, n, ⟨source.columns, own, broke,
          batchOutcome call (first :: more) stream.runtime⟩⟩ stream'.runtime :=
      ⟨⟨first, more, rfl, rfl⟩, hle, rfl, rfl, hruntime ▸ hbatch⟩
    have hrows : stream'.handed = givenRows (bs ++ [⟨first :: more, n, ⟨source.columns, own, broke,
        batchOutcome call (first :: more) stream.runtime⟩⟩]) := by
      rw [hhanded, hgiven, givenRows_append, givenRows_single]
    by_cases hopen : broke = false ∧ (first :: more).length = n
    · obtain ⟨rfl, hfull⟩ := hopen
      refine .opened (trace_snoc hfill ⟨hexecutes, hfull, rfl⟩) ?_ hbroken hrows
      rw [hfed, List.flatMap_append, List.flatMap_cons, List.flatMap_nil, List.append_nil]
    · refine .ended hfill hexecutes ?_ hbroken (hend.imp_right fun hd => ⟨hd, rfl⟩)
        (fun hb => ⟨?_, rfl⟩) ?_
      · rw [hfed, List.append_nil]
      · rw [hbroken] at hb
        exact hend.resolve_left fun hfull => hopen ⟨hb, hfull⟩
      · rw [hrows, unstartedRows_nil, List.append_nil]

/-- **A pass that an error ends**: in front of its batch, or with the batch on the next rows. -/
inductive PassCut (source : StreamPrefix call) (graph : GraphState) (n : Nat) (fed : List Row)
    (stream : TransactionProgramStream) (e : QueryError) (stream' : TransactionProgramStream) : Prop
  | refused (h : Refused source graph stream.runtime e stream')
  | failed {first : Row} {more : List Row} {stream₂ : TransactionProgramStream}
      (hgo : stream.broken = false) (hmore : stream.upstreamDone = false) (hpos : 0 < n)
      (hle : (first :: more).length ≤ n)
      (hend : (first :: more).length = n ∨ stream₂.upstreamDone = true)
      (ht : Taken source graph (fed ++ first :: more) stream₂)
      (hbatch : executeBatch call source.columns (first :: more) [] stream.runtime =
        .error e stream'.runtime)

theorem executeNextBatch_ends (h : StreamBetween source graph s₀ n fed stream)
    (hp : Pinned source graph stream) (hn : Settles source graph s₀ n)
    (hgo : stream.broken = false) :
    Ends (fun _ stream' => ∃ more, StreamBetween source graph s₀ n (fed ++ more) stream' ∧
        (stream'.finished = true ∨ more ≠ []))
      (PassCut source graph n fed stream) (executeNextBatch call source stream) := by
  refine (ensureBatchStarted_ends h.taken hp h.idle).bind (fun _ _ h => .refused h)
    fun started stream₁ hstart => ?_
  rcases hstart with ⟨rfl, rfl, ht₁⟩ | ⟨rfl, hmore, first, m, hsize, rfl, ht₁⟩
  · -- the prefix has come to its end
    refine ⟨[], ⟨?_, ?_, h.idle, ?_, fun _ => rfl⟩, .inl rfl⟩
    · rw [List.append_nil]
      cases h.run with
      | opened hfill hfed hgoes hhanded => exact .opened hfill hfed hgoes hhanded
      | ended hfill hlast hfed hstop hcut hdone hhanded =>
        exact .ended hfill hlast hfed hstop (hcut.imp_right fun hc => ⟨rfl, hc.2⟩)
          (fun hb => ⟨rfl, (hdone hb).2⟩) hhanded
    · rw [List.append_nil]
      exact ht₁
    · rw [List.append_nil]
      exact h.size
  · obtain ⟨rfl, hpos⟩ := h.settled hn ht₁ hsize
    refine .reading (fun e hsize₁ => nomatch hsize₁) fun size hsize₁ => ?_
    cases hsize₁
    refine (fillPendingBatch_ends m ht₁ hp (Nat.le_add_left m _) hpos).bind
      (fun _ _ h => .refused h) fun _ stream₂ hfill => ?_
    obtain ⟨more, hpulled, ht₂, hle, hend⟩ := hfill
    rw [List.append_assoc] at ht₂
    have hpending : stream₂.pendingInput = first :: more := by
      rw [hpulled]
      rfl
    have hruntime : stream₂.runtime = stream.runtime := by rw [hpulled]
    refine .reading (fun e h => nomatch h) fun empty hempty => ?_
    cases hempty
    rw [if_neg (by rw [hpending]; simp)]
    refine (executePendingBatch_ends graph).mono (fun _ stream' hexec => ?_) fun e stream' hcut => ?_
    · obtain ⟨own, broke, t, hbatch, hstream'⟩ := hexec
      rw [hpending, hruntime] at hbatch
      rw [hpending] at hle hend
      refine ⟨first :: more, ⟨?_, ?_, ?_, ?_, fun hfinished => ?_⟩, .inr (List.cons_ne_nil _ _)⟩
      · refine h.run.next hgo hmore hle ?_ hbatch ?_ ?_ ?_
        · rw [hstream']
          exact hend
        · rw [hstream']
        · rw [hstream']
        · rw [hstream', hpulled]
      · rw [hstream']
        exact ⟨ht₂.position, ht₂.front, ht₂.drained⟩
      · rw [hstream']
      · rw [hstream', hpulled]
        exact .inl ⟨rfl, hpos⟩
      · rw [hstream', hpulled] at hfinished
        rw [h.ends hfinished] at hmore
        cases hmore
    · rw [hpending, hruntime] at hcut
      rw [hpending] at hle hend
      exact hcut.elim .refused (.failed hgo hmore hpos hle hend ht₂)

theorem StreamBetween.sized (h : StreamBetween source graph s₀ n fed stream)
    (hbroken : stream.broken = true) : stream.batchSize = some n ∧ 0 < n := by
  rcases h.size with hsize | ⟨_, hnil⟩
  · exact hsize
  · cases h.run with
    | opened _ _ hgoes _ =>
      rw [hgoes] at hbroken
      cases hbroken
    | ended _ hlast hfed _ _ _ _ =>
      obtain ⟨a, rest, hrows, _⟩ := hlast.size
      rw [hnil, hrows] at hfed
      exact absurd hfed.symm (by simp)

theorem produceUnstartedRows_ends (h : StreamBetween source graph s₀ n fed stream)
    (hp : Pinned source graph stream) (hbroken : stream.broken = true) :
    Ends (fun _ stream' => ∃ more, StreamBetween source graph s₀ n (fed ++ more) stream' ∧
        (stream'.finished = true ∨ more ≠ []))
      (PassCut source graph n fed stream) (produceUnstartedRows call source stream) := by
  refine (pullUnstartedRows_ends 256 h.taken hp).bind (fun _ _ h => .refused h)
    fun more stream₁ hpull => ?_
  obtain ⟨more', hsame, hstream₁, ht₁, hend, hdrained⟩ := hpull
  obtain rfl : more = more' := hsame
  have hend : more = [] → stream₁.upstreamDone = true := by
    intro hnil
    rw [hnil] at hend
    exact hend.resolve_left (by simp)
  -- both branches leave the same of the stream
  have hbetween : ∀ stream' finished, (finished = true → stream.finished = true ∨ more = []) →
      stream' = { stream₁ with
        finished := finished
        handed := stream.handed ++ unstartedRows call source.columns more } →
      (finished = true ∨ more ≠ []) →
      ∃ more, StreamBetween source graph s₀ n (fed ++ more) stream' ∧
        (stream'.finished = true ∨ more ≠ []) := by
    intro stream' finished hfinished hstream' hprogress
    subst hstream'
    refine ⟨more, ⟨?_, ⟨ht₁.position, ht₁.front, ht₁.drained⟩, ?_, ?_, fun hf => ?_⟩, hprogress⟩
    · cases h.run with
      | opened _ _ hgoes _ =>
        rw [hgoes] at hbroken
        cases hbroken
      | @ended bs b tail u hfill hlast hfed hstop hcut hdone hhanded =>
        have hfed' : fed ++ more = bs.flatMap Batch.rows ++ (b.rows ++ (tail ++ more)) := by
          rw [hfed, List.append_assoc, List.append_assoc]
        rw [hstream₁]
        refine .ended hfill hlast hfed' hstop (hcut.imp_right fun hc => ?_) (fun hb => ?_) ?_
        · obtain ⟨hnil, hdone₁⟩ := hdrained hc.1
          refine ⟨hdone₁, ?_⟩
          rw [hc.2, hnil]
          rfl
        · rw [show stream.broken = false from hb] at hbroken
          cases hbroken
        · rw [hhanded, unstartedRows_append, List.append_assoc]
    · rw [hstream₁]
      exact h.idle
    · rw [hstream₁]
      exact .inl (h.sized hbroken)
    · rcases hfinished hf with hf | hnil
      · exact (hdrained (h.ends hf)).2
      · exact hend hnil
  by_cases hnil : more = []
  · rw [if_pos (by rw [hnil]; rfl)]
    refine hbetween _ true (fun _ => .inr hnil) ?_ (.inl rfl)
    rw [hnil, unstartedRows_nil, List.append_nil, hstream₁]
  · rw [if_neg (by rw [List.isEmpty_iff]; exact hnil)]
    refine hbetween _ stream.finished .inl ?_ (.inr hnil)
    rw [hstream₁]

/-- **One pass takes a row, or it is the last.** -/
theorem advance_ends {interrupted : QueryResult Unit}
    (h : StreamBetween source graph s₀ n fed stream) (hl : Linked call.hashing s₀.repository)
    (hp : resolveSnapshot call.hashing source.prefixCommit s₀.repository = .ok graph)
    (hn : Settles source graph s₀ n) :
    Ends (fun _ stream' => ∃ more, StreamBetween source graph s₀ n (fed ++ more) stream' ∧
        (stream'.finished = true ∨ more ≠ []))
      (fun e stream' => (interrupted = .error e ∧ stream' = stream) ∨
        PassCut source graph n fed stream e stream')
      (advance call source interrupted stream) := by
  have hpinned := h.run.pinned hl hp
  refine .reading (fun e hcheck => .inl ⟨hcheck, rfl⟩) fun _ _ => .reading (fun e h => nomatch h)
    fun broken hbroken => ?_
  cases hbroken
  split
  · rename_i htrue
    exact (produceUnstartedRows_ends h hpinned htrue).mono (fun _ _ h => h) fun _ _ h => .inr h
  · rename_i hfalse
    exact (executeNextBatch_ends h hpinned hn (Bool.eq_false_iff.mpr hfalse)).mono
      (fun _ _ h => h) fun _ _ h => .inr h

/-- **A pass that fails leaves the database file as it was.** -/
theorem PassCut.same (h : PassCut source graph n fed stream e stream') :
    stream'.runtime.repository = stream.runtime.repository := by
  cases h with
  | refused h => rw [h.1]
  | failed _ _ _ _ _ _ hbatch => exact executeBatch_ends.error hbatch

/-! ## 4. The stream -/

/-- **The stream before its first pass.** -/
theorem streamBetween_initial {runtime : Runtime} :
    StreamBetween source graph runtime n [] { runtime } := by
  refine ⟨.opened (.nil runtime) rfl rfl rfl, ⟨rfl, ⟨_, rfl⟩, fun h => ?_⟩, rfl, .inr ⟨rfl, rfl⟩,
    fun h => h⟩
  cases h

theorem runStream_stays : ∀ {checks : List (QueryResult Unit)}, stream.finished = true →
    runStream call source checks stream = .ok () stream
  | [], _ => rfl
  | interrupted :: later, hf => by
    unfold runStream
    show (if stream.finished then pure () else _ : StreamTx Unit) stream = _
    rw [if_pos hf]
    rfl

/-- **Passes**, one after the other; the last may be cut off. -/
theorem runStream_ends (hl : Linked call.hashing s₀.repository)
    (hp : resolveSnapshot call.hashing source.prefixCommit s₀.repository = .ok graph)
    (hn : Settles source graph s₀ n) : ∀ {checks : List (QueryResult Unit)} {fed : List Row}
    {stream : TransactionProgramStream}, StreamBetween source graph s₀ n fed stream →
      Ends (fun _ stream' => ∃ more, StreamBetween source graph s₀ n (fed ++ more) stream' ∧
          (stream'.finished = true ∨ checks.length ≤ more.length))
        (fun e stream' => ∃ more stream₁, StreamBetween source graph s₀ n (fed ++ more) stream₁ ∧
          ((.error e ∈ checks ∧ stream' = stream₁) ∨
            PassCut source graph n (fed ++ more) stream₁ e stream'))
        (runStream call source checks stream)
  | [], fed, stream, h => by
    refine ⟨[], ?_, .inr (Nat.zero_le _)⟩
    rw [List.append_nil]
    exact h
  | interrupted :: later, fed, stream, h => by
    refine .reading (fun e h => nomatch h) fun finished hfinished => ?_
    cases hfinished
    split
    · rename_i htrue
      refine ⟨[], ?_, .inl htrue⟩
      rw [List.append_nil]
      exact h
    · refine (advance_ends h hl hp hn).bind (fun e stream' hcut => ?_) fun _ stream₁ hstep => ?_
      · refine ⟨[], stream, ?_, ?_⟩
        · rw [List.append_nil]
          exact h
        · rw [List.append_nil]
          exact hcut.imp_left fun hc => ⟨List.mem_cons.mpr (.inl hc.1.symm), hc.2⟩
      · obtain ⟨more, h₁, hprogress⟩ := hstep
        rcases hprogress with hf | hnil
        · rw [runStream_stays hf]
          exact ⟨more, h₁, .inl hf⟩
        · refine (runStream_ends hl hp hn h₁).mono (fun _ stream' hrest => ?_)
            fun e stream' hrest => ?_
          · obtain ⟨more', h', hprogress'⟩ := hrest
            rw [List.append_assoc] at h'
            refine ⟨more ++ more', h', hprogress'.imp_right fun hle => ?_⟩
            have hpos : 0 < more.length := List.length_pos_iff.mpr hnil
            rw [List.length_cons, List.length_append]
            omega
          · obtain ⟨more', stream₂, h₂, hcut⟩ := hrest
            rw [List.append_assoc] at h₂ hcut
            exact ⟨more ++ more', stream₂, h₂,
              hcut.imp_left fun hc => ⟨.tail _ hc.1, hc.2⟩⟩

theorem settles_exists (source : StreamPrefix call) (graph : GraphState) (s₀ : Runtime) :
    ∃ n, Settles source graph s₀ n := by
  cases hrows : source.bindings graph with
  | nil =>
    refine ⟨0, fun first later h => ?_⟩
    rw [hrows] at h
    cases h
  | cons row rest =>
    cases row with
    | error e =>
      refine ⟨0, fun first later h => ?_⟩
      rw [hrows] at h
      cases h
    | ok row =>
      cases hsize : resolveBatchSize call row s₀ with
      | error e =>
        refine ⟨0, fun first later h m hm => ?_⟩
        rw [hrows] at h
        cases h
        rw [hsize] at hm
        cases hm
      | ok k =>
        refine ⟨k, fun first later h m hm => ?_⟩
        rw [hrows] at h
        cases h
        rw [hsize] at hm
        cases hm
        rfl

/-- **The streaming executor keeps its accounts**, and as many passes as rows, and one more, finish
it. -/
theorem runStream_accounted {s : Runtime} (hl : Linked call.hashing s.repository)
    (hp : resolveSnapshot call.hashing source.prefixCommit s.repository = .ok graph)
    (checks : List (QueryResult Unit)) :
    match runStream call source checks { runtime := s } with
    | .ok _ stream => ∃ rows batches tail, (∃ later, source.bindings graph = rows.map .ok ++ later) ∧
        Accounted call rows batches tail stream.handed s stream.runtime ∧
        (stream.finished = true → source.bindings graph = rows.map .ok) ∧
        ((source.bindings graph).length < checks.length → stream.finished = true)
    | .error _ stream => ∃ rows batches rest, (∃ later, source.bindings graph = rows.map .ok ++ later) ∧
        Halted call rows batches rest s stream.runtime := by
  obtain ⟨n, hn⟩ := settles_exists source graph s
  have hinitial : StreamBetween source graph s n [] { runtime := s } := streamBetween_initial
  split
  · rename_i stream h
    obtain ⟨rows, hbetween, hprogress⟩ := (runStream_ends hl hp hn hinitial).ok h
    rw [List.nil_append] at hbetween
    obtain ⟨bs, tail, hrun, hhanded⟩ := hbetween.run.processed
    refine ⟨rows, bs, tail, hbetween.taken.front, Processed.accounted hrun hl hhanded, fun hf => ?_,
      fun hlength => ?_⟩
    · exact hbetween.taken.drained (hbetween.ends hf)
    · obtain ⟨later, hlater⟩ := hbetween.taken.front
      refine hprogress.resolve_right fun hle => ?_
      rw [hlater, List.length_append, List.length_map] at hlength
      omega
  · rename_i e stream h
    obtain ⟨rows, stream₁, hbetween, hcut⟩ := (runStream_ends hl hp hn hinitial).error h
    have hsame : stream.runtime.repository = stream₁.runtime.repository := by
      rcases hcut with ⟨_, rfl⟩ | hcut
      · rfl
      · exact hcut.same
    obtain ⟨bs, tail, hrun, _⟩ := hbetween.run.processed
    exact ⟨rows, bs, tail, hbetween.taken.front, Processed.halted hrun hl hsame⟩

end Stream

/-! ## 5. The three executors -/

/-- **The accounts of a call in transactions**, whichever executor runs it. -/
structure BatchAccounting {E C : Type} (call : TransactionCall E C) (s : Runtime) : Prop where
  /-- The materialised executor, on every sequence of rows. -/
  materialised : ∀ input : RowSet,
    match executeTransactionCallControlled call input s with
    | .ok result t => ∃ batches tail, Accounted call input.rows batches tail result.rows.rows s t
    | .error _ t => ∃ batches rest, Halted call input.rows batches rest s t
  /-- The CSV executor, on every file and with every prefix. -/
  csv : ∀ (Q S : Type) (pipeline : CsvTransactionPipeline E C Q S), pipeline.call = call →
    ∀ input : RowSet,
      match streamCsvBatches pipeline input s with
      | .ok result t => ∃ rows batches tail, CsvInput pipeline s input rows ∧
          Accounted call rows batches tail result.rows s t
      | .error _ t => ∃ rows batches rest, CsvFront pipeline s input rows ∧
          Halted call rows batches rest s t
  /-- The streaming executor, after every number of passes. -/
  streaming : ∀ (source : StreamPrefix call) (graph : GraphState),
    resolveSnapshot call.hashing source.prefixCommit s.repository = .ok graph →
    ∀ checks : List (QueryResult Unit),
      match runStream call source checks { runtime := s } with
      | .ok _ stream => ∃ rows batches tail, (∃ later, source.bindings graph = rows.map .ok ++ later) ∧
          Accounted call rows batches tail stream.handed s stream.runtime ∧
          (stream.finished = true → source.bindings graph = rows.map .ok) ∧
          ((source.bindings graph).length < checks.length → stream.finished = true)
      | .error _ stream => ∃ rows batches rest,
          (∃ later, source.bindings graph = rows.map .ok ++ later) ∧
            Halted call rows batches rest s stream.runtime

/-- **Every executor keeps the accounts of its batches.** -/
theorem batchAccounting {E C : Type} {call : TransactionCall E C} {s : Runtime}
    (hr : Reaches call.hashing s.repository) : BatchAccounting call s where
  materialised := executeTransactionCallControlled_accounted (linked_reaches hr)
  csv := by
    intro Q S pipeline hcall input
    subst hcall
    exact streamCsvBatches_accounted (linked_reaches hr) input
  streaming _ _ hp checks := runStream_accounted (linked_reaches hr) hp checks

/-- The layer of new nodes. -/
def nodesLayer (nodes : List Int) : QueryResult Repository.PreparedLayer :=
  match h : LayerBuilder.supply (nodes.map LayerChange.addNode) with
  | .ok layer =>
    if hfits : (∀ id ∈ nodes, id < 2 ^ 63) ∧ (nodes.map LayerChange.addNode).length < 2 ^ 64 then
      .ok ⟨layer, built_supply (fun c hc => by
        obtain ⟨id, hid, rfl⟩ := List.mem_map.mp hc
        exact hfits.1 id hid) hfits.2 h⟩
    else .error (.internal "Node id space exhausted")
  | .error e => .error (.ofStorage e)

/-- Node ids up to the next one are allocated. -/
def nodesAllocated (next : Int) : Repository.Allocation where
  run := fun ids => { ids with nextNode := max ids.nextNode next }
  grows := fun _ => ⟨Int.le_max_left _ _, Int.le_refl _, fun _ h => h, fun _ h => h, fun _ h => h⟩

/-- A subquery that creates a node for each row, and fails on a row that binds `bad`; it works on
    the next node id and the nodes created. -/
def createNodes (spec : TransactionSpec Int) : TransactionCall Int (Int × List Int) where
  hashing := byDepth
  branch := "main".toList
  spec := spec
  evaluate := fun value _ _ => .ok (.integer value)
  callColumns := .ok
  newContext := fun ids _ => .ok (ids.nextNode, [])
  callBody := fun context row =>
    if row.values.contains "bad".toList then .error (.invalidArgument "division by zero")
    else .ok ({}, context.1 + 1, context.2 ++ [context.1])
  returnsRows := false
  mutated := true
  validatedLayer := fun context => do
    let layer ← nodesLayer context.2
    .ok (layer, nodesAllocated context.1, { nodesCreated := context.2.length })

theorem batchAccounting_createNodes : BatchAccounting
    (createNodes { batchSize := some 2, error := .continue, statusAlias := some "status".toList })
    { repository := fresh, commit := [1] } :=
  batchAccounting fresh_reached

/-- What the status of a row says of its batch. -/
def reportedCommitted (name : Text) (row : Row) : Option Bool :=
  match row.values[name]? with
  | some (.scalar (.map ((_, .boolean committed) :: _))) => some committed
  | _ => none

-- the second of three batches fails on its first row, and both of its rows are reported
example :
    (match executeTransactionCallControlled
        (createNodes { batchSize := some 2, error := .continue, statusAlias := some "s".toList })
        ⟨[], [{}, {}, ({} : Row).insert "bad".toList .null, {}, {}]⟩
        { repository := fresh, commit := [1] } with
      | .ok result t => (result.rows.rows.map (reportedCommitted "s".toList),
          t.repository.branches["main".toList]?)
      | .error _ _ => ([], none)) =
    ([some true, some true, some false, some false, some true], some [1, 1, 1]) := by
  decide +kernel

end Lithograph.Query.Transactions
