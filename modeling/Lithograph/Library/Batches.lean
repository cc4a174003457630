/-
  File:      Lithograph/Library/Batches.lean
  Subject:   Rows cut into consecutive batches that are executed one after the other.

  A batch takes as many rows as the size at its first row, or what is left. A result may stop the
  run; a batch that fails aborts it.

  * **`Processed.unique`**, `Aborted.unique`: programs that agree on sizes and results end alike.
-/
import Lithograph.Library.Transaction

namespace Lithograph.Library

variable {σ α β ε : Type}

/-- One batch: its rows, the size in force when it was cut, and its result. -/
structure Batch (α β : Type) where
  rows : List α
  size : Nat
  result : β

/-- A program that processes rows in batches. -/
structure Batching (σ α β ε : Type) where
  size : σ → α → Nat → Prop
  exec : List α → σ → β → σ → Prop
  fails : List α → σ → ε → σ → Prop
  stops : β → Bool

namespace Batching

/-! ## 1. Runs -/

section Runs

variable (m : Batching σ α β ε)

/-- A batch is executed. -/
structure Executes (s : σ) (b : Batch α β) (t : σ) : Prop where
  size : ∃ a rest, b.rows = a :: rest ∧ m.size s a b.size
  bound : b.rows.length ≤ b.size
  exec : m.exec b.rows s b.result t

/-- A full batch is executed and does not stop the run. -/
structure Fills (s : σ) (b : Batch α β) (t : σ) : Prop extends Executes m s b t where
  full : b.rows.length = b.size
  goesOn : m.stops b.result = false

/-- **Rows are processed**: the batches that were made, and the tail behind one that stopped the
    run. -/
inductive Processed : σ → List α → List (Batch α β) → List α → σ → Prop
  | done (s : σ) : Processed s [] [] [] s
  | more {s t u : σ} {a : α} {rest tail : List α} {n : Nat} {result : β} {bs : List (Batch α β)}
      (hsize : m.size s a n) (hpos : 0 < n) (hexec : m.exec ((a :: rest).take n) s result t)
      (hgo : m.stops result = false) (hrest : Processed t ((a :: rest).drop n) bs tail u) :
      Processed s (a :: rest) (⟨(a :: rest).take n, n, result⟩ :: bs) tail u
  | stopped {s t : σ} {a : α} {rest : List α} {n : Nat} {result : β}
      (hsize : m.size s a n) (hpos : 0 < n) (hexec : m.exec ((a :: rest).take n) s result t)
      (hstop : m.stops result = true) :
      Processed s (a :: rest) [⟨(a :: rest).take n, n, result⟩] ((a :: rest).drop n) t

/-- **A run is aborted**: the batches that were made, and the rows from the failed batch on. -/
inductive Aborted : σ → List α → List (Batch α β) → List α → ε → σ → Prop
  | failed {s t : σ} {a : α} {rest : List α} {n : Nat} {e : ε}
      (hsize : m.size s a n) (hpos : 0 < n) (hfail : m.fails ((a :: rest).take n) s e t) :
      Aborted s (a :: rest) [] (a :: rest) e t
  | more {s t u : σ} {a : α} {rest left : List α} {n : Nat} {result : β} {bs : List (Batch α β)}
      {e : ε} (hsize : m.size s a n) (hpos : 0 < n) (hexec : m.exec ((a :: rest).take n) s result t)
      (hgo : m.stops result = false) (hrest : Aborted t ((a :: rest).drop n) bs left e u) :
      Aborted s (a :: rest) (⟨(a :: rest).take n, n, result⟩ :: bs) left e u

end Runs

section Processed

variable {e : ε} {m : Batching σ α β ε} {s t u : σ} {rows tail : List α} {bs : List (Batch α β)}

/-! ## 2. Every row once, in order -/

/-- **The batches and the tail are the rows.** -/
theorem Processed.flatten (h : m.Processed s rows bs tail t) :
    rows = bs.flatMap Batch.rows ++ tail := by
  induction h with
  | done s => rfl
  | @more s t u a rest tail n result bs _ _ _ _ _ ih =>
    rw [List.flatMap_cons, List.append_assoc, ← ih]
    exact (List.take_append_drop n (a :: rest)).symm
  | @stopped s t a rest n result _ _ _ _ =>
    rw [List.flatMap_cons, List.flatMap_nil, List.append_nil]
    exact (List.take_append_drop n (a :: rest)).symm

variable {rest : List α} {b : Batch α β} {bs' : List (Batch α β)} {m' : Batching σ α β ε}
  {tail' : List α}

theorem executes_take {a : α} {n : Nat} {result : β} (hsize : m.size s a n)
    (hpos : 0 < n) (hexec : m.exec ((a :: rest).take n) s result t) :
    m.Executes s ⟨(a :: rest).take n, n, result⟩ t := by
  refine ⟨⟨a, rest.take (n - 1), ?_, hsize⟩, List.length_take_le n _, hexec⟩
  obtain ⟨k, rfl⟩ := Nat.exists_eq_succ_of_ne_zero (Nat.pos_iff_ne_zero.mp hpos)
  rfl

theorem Processed.trace (h : m.Processed s rows bs tail t) : Trace m.Executes s bs t := by
  induction h with
  | done s => exact .nil s
  | more hsize hpos hexec _ _ ih => exact .cons (executes_take hsize hpos hexec) ih
  | stopped hsize hpos hexec _ => exact .cons (executes_take hsize hpos hexec) (.nil _)

theorem length_take_of_drop {l : List α} {n : Nat} (h : l.drop n ≠ []) : (l.take n).length = n := by
  by_cases hlt : n ≤ l.length
  · exact List.length_take_of_le hlt
  · exact absurd (List.drop_eq_nil_of_le (Nat.le_of_not_le hlt)) h

/-- **Only the last batch may be short or stop the run.** -/
theorem Processed.cut (h : m.Processed s rows bs tail t) {before after : List (Batch α β)}
    (hb : bs = before ++ b :: after) (hlast : after ≠ [] ∨ tail ≠ []) :
    b.rows.length = b.size ∧ (after ≠ [] → m.stops b.result = false) := by
  induction h generalizing before with
  | done s =>
    exact nomatch (List.nil_eq_append_iff.mp hb).2
  | @more s t u a rest tail n result bs hsize hpos hexec hgo hrest ih =>
    cases before with
    | cons b' before =>
      obtain ⟨_, hb⟩ := List.cons.inj hb
      exact ih hb hlast
    | nil =>
      obtain ⟨rfl, rfl⟩ := List.cons.inj hb
      refine ⟨?_, fun _ => hgo⟩
      -- something is left behind the batch, so it took all it could
      have hleft : (a :: rest).drop n ≠ [] := by
        intro hnil
        rw [hnil] at hrest
        cases hrest
        rcases hlast with h | h
        · exact h rfl
        · exact h rfl
      exact length_take_of_drop hleft
  | @stopped s t a rest n result hsize hpos hexec hstop =>
    cases before with
    | cons b' before =>
      obtain ⟨_, hb⟩ := List.cons.inj hb
      exact nomatch (List.nil_eq_append_iff.mp hb).2
    | nil =>
      obtain ⟨rfl, rfl⟩ := List.cons.inj hb
      refine ⟨?_, fun h => absurd rfl h⟩
      exact length_take_of_drop (hlast.resolve_left fun h => h rfl)

theorem Processed.stop (h : m.Processed s rows bs tail t) (htail : tail ≠ []) :
    ∃ before b, bs = before ++ [b] ∧ m.stops b.result = true := by
  induction h with
  | done s => exact absurd rfl htail
  | more _ _ _ _ _ ih =>
    obtain ⟨before, b, rfl, hstop⟩ := ih htail
    exact ⟨_ :: before, b, rfl, hstop⟩
  | stopped _ _ _ hstop => exact ⟨[], _, rfl, hstop⟩

/-! ## 3. Taking up a run -/

theorem Fills.front (hb : m.Fills s b t) (rows : List α) :
    ∃ a rest, b.rows ++ rows = a :: rest ∧ m.size s a b.size ∧ 0 < b.size ∧
      (a :: rest).take b.size = b.rows ∧ (a :: rest).drop b.size = rows := by
  obtain ⟨a, rest, hrows, hsize⟩ := hb.size
  refine ⟨a, rest ++ rows, by rw [hrows, List.cons_append], hsize, ?_, ?_, ?_⟩
  · rw [← hb.full, hrows]
    exact Nat.succ_pos _
  · rw [← List.cons_append, ← hrows, ← hb.full, List.take_left]
  · rw [← List.cons_append, ← hrows, ← hb.full, List.drop_left]

theorem Fills.before (hb : m.Fills s b t)
    (h : m.Processed t rows bs tail u) : m.Processed s (b.rows ++ rows) (b :: bs) tail u := by
  obtain ⟨a, rest, hrows, hsize, hpos, htake, hdrop⟩ := hb.front rows
  have hrun : m.Processed s (a :: rest) (⟨(a :: rest).take b.size, b.size, b.result⟩ :: bs) tail u :=
    .more hsize hpos (htake.symm ▸ hb.exec) hb.goesOn (hdrop.symm ▸ h)
  rw [htake] at hrun
  rw [hrows]
  exact hrun

theorem Fills.beforeAborted (hb : m.Fills s b t)
    (h : m.Aborted t rows bs tail e u) : m.Aborted s (b.rows ++ rows) (b :: bs) tail e u := by
  obtain ⟨a, rest, hrows, hsize, hpos, htake, hdrop⟩ := hb.front rows
  have hrun : m.Aborted s (a :: rest) (⟨(a :: rest).take b.size, b.size, b.result⟩ :: bs) tail e u :=
    .more hsize hpos (htake.symm ▸ hb.exec) hb.goesOn (hdrop.symm ▸ h)
  rw [htake] at hrun
  rw [hrows]
  exact hrun

/-- **A run may be taken up behind its full batches.** -/
theorem Processed.after (hfull : Trace m.Fills s bs' t) (h : m.Processed t rows bs tail u) :
    m.Processed s (bs'.flatMap Batch.rows ++ rows) (bs' ++ bs) tail u := by
  induction hfull with
  | nil s => exact h
  | cons hb _ ih =>
    rw [List.flatMap_cons, List.append_assoc]
    exact hb.before (ih h)

theorem Aborted.after (hfull : Trace m.Fills s bs' t) (h : m.Aborted t rows bs tail e u) :
    m.Aborted s (bs'.flatMap Batch.rows ++ rows) (bs' ++ bs) tail e u := by
  induction hfull with
  | nil s => exact h
  | cons hb _ ih =>
    rw [List.flatMap_cons, List.append_assoc]
    exact hb.beforeAborted (ih h)

theorem Processed.single {a : α} (h : m.Processed s (a :: rest) bs tail t)
    (hfit : ∀ n, m.size s a n → (a :: rest).length ≤ n) :
    ∃ b, bs = [b] ∧ tail = [] ∧ b.rows = a :: rest ∧ m.Executes s b t := by
  cases h with
  | @more _ u _ _ _ _ n result bs hsize hpos hexec hgo hrest =>
    have htake : (a :: rest).take n = a :: rest := List.take_of_length_le (hfit n hsize)
    rw [List.drop_eq_nil_of_le (hfit n hsize)] at hrest
    cases hrest
    exact ⟨_, rfl, rfl, htake, executes_take hsize hpos hexec⟩
  | stopped hsize hpos hexec hstop =>
    refine ⟨_, rfl, List.drop_eq_nil_of_le (hfit _ hsize), List.take_of_length_le (hfit _ hsize),
      executes_take hsize hpos hexec⟩

theorem Aborted.single {a : α} (h : m.Aborted s (a :: rest) bs tail e t)
    (hfit : ∀ n, m.size s a n → (a :: rest).length ≤ n) : m.fails (a :: rest) s e t := by
  cases h with
  | failed hsize _ hfail =>
    rw [List.take_of_length_le (hfit _ hsize)] at hfail
    exact hfail
  | more hsize _ _ _ hrest =>
    rw [List.drop_eq_nil_of_le (hfit _ hsize)] at hrest
    cases hrest

theorem Aborted.cut (h : m.Aborted s rows bs tail e u) :
    ∃ t a rest n, rows = bs.flatMap Batch.rows ++ tail ∧ Trace m.Fills s bs t ∧ tail = a :: rest ∧
      m.size t a n ∧ 0 < n ∧ m.fails ((a :: rest).take n) t e u := by
  induction h with
  | failed hsize hpos hfail => exact ⟨_, _, _, _, rfl, .nil _, rfl, hsize, hpos, hfail⟩
  | @more s t u a rest left n result bs e hsize hpos hexec hgo hrest ih =>
    obtain ⟨t', a', rest', n', hrows, htrace, hleft, hsize', hpos', hfail⟩ := ih
    have hfull : ((a :: rest).take n).length = n := by
      refine length_take_of_drop fun hnil => ?_
      rw [hnil, hleft] at hrows
      exact absurd hrows.symm (by simp)
    refine ⟨t', a', rest', n', ?_, .cons ⟨executes_take hsize hpos hexec, hfull, hgo⟩ htrace, hleft,
      hsize', hpos', hfail⟩
    rw [List.flatMap_cons, List.append_assoc, ← hrows]
    exact (List.take_append_drop n (a :: rest)).symm

theorem Executes.last (hb : m.Executes s b t) (hgo : m.stops b.result = false) :
    m.Processed s b.rows [b] [] t := by
  obtain ⟨brows, n, result⟩ := b
  obtain ⟨⟨a, rest, hrows, hsize⟩, hbound, hexec⟩ := hb
  subst hrows
  have hpos : 0 < n := Nat.lt_of_lt_of_le (Nat.succ_pos _) hbound
  have htake : (a :: rest).take n = a :: rest := List.take_of_length_le hbound
  have hdrop : (a :: rest).drop n = [] := List.drop_eq_nil_of_le hbound
  have hrun : m.Processed s (a :: rest) [⟨(a :: rest).take n, n, result⟩] [] t :=
    .more hsize hpos (htake.symm ▸ hexec) hgo (hdrop.symm ▸ .done t)
  rw [htake] at hrun
  exact hrun

theorem Executes.stop (hb : m.Executes s b t) (hstop : m.stops b.result = true)
    (htail : b.rows.length = b.size ∨ tail = []) : m.Processed s (b.rows ++ tail) [b] tail t := by
  obtain ⟨brows, n, result⟩ := b
  obtain ⟨⟨a, rest, hrows, hsize⟩, hbound, hexec⟩ := hb
  dsimp only at hrows hsize hbound hexec hstop htail ⊢
  subst hrows
  have hpos : 0 < n := Nat.lt_of_lt_of_le (Nat.succ_pos _) hbound
  have hsplit : (a :: (rest ++ tail)).take n = a :: rest ∧ (a :: (rest ++ tail)).drop n = tail := by
    rcases htail with hfull | rfl
    · rw [← hfull]
      exact ⟨List.take_left, List.drop_left⟩
    · rw [List.append_nil]
      exact ⟨List.take_of_length_le hbound, List.drop_eq_nil_of_le hbound⟩
  have hrun : m.Processed s (a :: (rest ++ tail))
      [⟨(a :: (rest ++ tail)).take n, n, result⟩] ((a :: (rest ++ tail)).drop n) t :=
    .stopped hsize hpos (hsplit.1.symm ▸ hexec) hstop
  rw [hsplit.1, hsplit.2] at hrun
  exact hrun

theorem Fills.executes {bs : List (Batch α β)} (h : Trace m.Fills s bs t) :
    Trace m.Executes s bs t := by
  induction h with
  | nil s => exact .nil s
  | cons hb _ ih => exact .cons hb.toExecutes ih

/-! ## 4. Two programs -/

/-- Two programs agree on sizes and on what a batch does. -/
structure Agree (m m' : Batching σ α β ε) : Prop where
  size : ∀ {s a n n'}, m.size s a n → m'.size s a n' → n = n'
  exec : ∀ {rows s r t r' t'}, m.exec rows s r t → m'.exec rows s r' t' → r = r' ∧ t = t'
  fails : ∀ {rows s e t e' t'}, m.fails rows s e t → m'.fails rows s e' t' → e = e' ∧ t = t'
  left : ∀ {rows s r t e t'}, m.exec rows s r t → m'.fails rows s e t' → False
  right : ∀ {rows s e t r t'}, m.fails rows s e t → m'.exec rows s r t' → False
  stops : m.stops = m'.stops

theorem Agree.symm {m m' : Batching σ α β ε} (h : Agree m m') : Agree m' m where
  size hm hm' := (h.size hm' hm).symm
  exec hm hm' := by
    obtain ⟨hr, ht⟩ := h.exec hm' hm
    exact ⟨hr.symm, ht.symm⟩
  fails hm hm' := by
    obtain ⟨he, ht⟩ := h.fails hm' hm
    exact ⟨he.symm, ht.symm⟩
  left hm hm' := h.right hm' hm
  right hm hm' := h.left hm' hm
  stops := h.stops.symm

/-- **Programs that agree make the same batches.** -/
theorem Processed.unique (hm : Agree m m') (h : m.Processed s rows bs tail t) {t' : σ}
    (h' : m'.Processed s rows bs' tail' t') : bs = bs' ∧ tail = tail' ∧ t = t' := by
  induction h generalizing bs' tail' t' with
  | done s =>
    cases h'
    exact ⟨rfl, rfl, rfl⟩
  | more hn _ he hgo _ ih =>
    cases h' with
    | more hn' _ he' _ hrest =>
      cases hm.size hn hn'
      obtain ⟨rfl, rfl⟩ := hm.exec he he'
      obtain ⟨rfl, rfl, rfl⟩ := ih hrest
      exact ⟨rfl, rfl, rfl⟩
    | stopped hn' _ he' hstop =>
      cases hm.size hn hn'
      obtain ⟨rfl, rfl⟩ := hm.exec he he'
      rw [hm.stops, hstop] at hgo
      cases hgo
  | stopped hn _ he hstop =>
    cases h' with
    | more hn' _ he' hgo _ =>
      cases hm.size hn hn'
      obtain ⟨rfl, rfl⟩ := hm.exec he he'
      rw [hm.stops, hgo] at hstop
      cases hstop
    | stopped hn' _ he' _ =>
      cases hm.size hn hn'
      obtain ⟨rfl, rfl⟩ := hm.exec he he'
      exact ⟨rfl, rfl, rfl⟩

/-- **Programs that agree are aborted at the same batch.** -/
theorem Aborted.unique (hm : Agree m m') (h : m.Aborted s rows bs tail e t) {e' : ε} {t' : σ}
    (h' : m'.Aborted s rows bs' tail' e' t') : bs = bs' ∧ tail = tail' ∧ e = e' ∧ t = t' := by
  induction h generalizing bs' tail' t' with
  | failed hn _ hf =>
    cases h' with
    | failed hn' _ hf' =>
      cases hm.size hn hn'
      obtain ⟨rfl, rfl⟩ := hm.fails hf hf'
      exact ⟨rfl, rfl, rfl, rfl⟩
    | more hn' _ he' _ _ =>
      cases hm.size hn hn'
      exact (hm.right hf he').elim
  | more hn _ he _ _ ih =>
    cases h' with
    | failed hn' _ hf' =>
      cases hm.size hn hn'
      exact (hm.left he hf').elim
    | more hn' _ he' _ hrest =>
      cases hm.size hn hn'
      obtain ⟨rfl, rfl⟩ := hm.exec he he'
      obtain ⟨rfl, rfl, rfl, rfl⟩ := ih hrest
      exact ⟨rfl, rfl, rfl, rfl⟩

theorem Aborted.not_processed (hm : Agree m m') (h : m.Aborted s rows bs tail e t) {t' : σ} :
    ¬ m'.Processed s rows bs' tail' t' := by
  intro h'
  induction h generalizing bs' tail' t' with
  | failed hn _ hf =>
    cases h' with
    | more hn' _ he' _ _ =>
      cases hm.size hn hn'
      exact hm.right hf he'
    | stopped hn' _ he' _ =>
      cases hm.size hn hn'
      exact hm.right hf he'
  | more hn _ he hgo _ ih =>
    cases h' with
    | more hn' _ he' _ hrest =>
      cases hm.size hn hn'
      obtain ⟨rfl, rfl⟩ := hm.exec he he'
      exact ih hrest
    | stopped hn' _ he' hstop =>
      cases hm.size hn hn'
      obtain ⟨rfl, rfl⟩ := hm.exec he he'
      rw [hm.stops, hstop] at hgo
      cases hgo

end Processed

end Batching

end Lithograph.Library
