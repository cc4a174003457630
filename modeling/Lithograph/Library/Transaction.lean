/-
  File:      Lithograph/Library/Transaction.lean
  Subject:   Computations that write a store and may fail half way, savepoints, and runs of such
             calls.

  A computation is an `EStateM`: an error keeps what was written before it, and `savepoint` takes
  that back.

  * `trace_between`: if a property holds in a run and fails later, some event in between took it
    away.
-/
import Mathlib.Data.List.Basic

namespace Lithograph.Library

/-! ## 1. Computations on a store -/

section Computations

variable {ε ε' σ α β : Type} {x : EStateM ε σ α} {s s' : σ} {a : α} {e : ε}

/-- **A sequence succeeds exactly when its parts do.** -/
theorem tx_bind_ok {f : α → EStateM ε σ β} {b : β} :
    (x >>= f) s = .ok b s' ↔ ∃ a t, x s = .ok a t ∧ f a t = .ok b s' := by
  show EStateM.bind x f s = .ok b s' ↔ _
  unfold EStateM.bind
  cases hx : x s with
  | ok a t =>
    refine ⟨fun h => ⟨a, t, rfl, h⟩, ?_⟩
    rintro ⟨a', t', h, hf⟩
    cases h
    exact hf
  | error e t =>
    refine ⟨fun h => ?_, ?_⟩
    · cases h
    · rintro ⟨a', t', h, _⟩
      cases h

@[simp] theorem tx_pure_ok {a b : α} :
    (pure a : EStateM ε σ α) s = .ok b s' ↔ a = b ∧ s = s' := by
  show EStateM.Result.ok a s = .ok b s' ↔ _
  constructor
  · intro h
    cases h
    exact ⟨rfl, rfl⟩
  · rintro ⟨rfl, rfl⟩
    rfl

/-- A computation that only reads the store. -/
def reading (f : σ → Except ε α) : EStateM ε σ α := fun s =>
  match f s with
  | .ok a => .ok a s
  | .error e => .error e s

@[simp] theorem reading_ok {f : σ → Except ε α} :
    reading f s = .ok a s' ↔ f s = .ok a ∧ s = s' := by
  unfold reading
  cases f s with
  | ok b =>
    constructor
    · intro h
      cases h
      exact ⟨rfl, rfl⟩
    · rintro ⟨h, rfl⟩
      cases h
      rfl
  | error e =>
    constructor
    · intro h
      cases h
    · rintro ⟨h, _⟩
      cases h

/-- A result that does not look at the store. -/
def lifted (x : Except ε α) : EStateM ε σ α := reading fun _ => x

@[simp] theorem lifted_ok {x : Except ε α} :
    (lifted x : EStateM ε σ α) s = .ok a s' ↔ x = .ok a ∧ s = s' := by
  unfold lifted
  exact reading_ok

/-- A write that cannot fail. -/
def writing (f : σ → σ) : EStateM ε σ Unit := fun s => .ok () (f s)

@[simp] theorem writing_ok {f : σ → σ} {u : Unit} :
    (writing f : EStateM ε σ Unit) s = .ok u s' ↔ f s = s' := by
  unfold writing
  constructor
  · intro h
    cases h
    rfl
  · rintro rfl
    rfl

/-- `map_err`, with a translation that may look at the store the error left behind. -/
def mapErr (g : σ → ε → ε') (x : EStateM ε σ α) : EStateM ε' σ α := fun s =>
  match x s with
  | .ok a t => .ok a t
  | .error e t => .error (g t e) t

@[simp] theorem mapErr_ok {g : σ → ε → ε'} :
    mapErr g x s = .ok a s' ↔ x s = .ok a s' := by
  unfold mapErr
  cases x s with
  | ok b t =>
    constructor
    · intro h
      cases h
      rfl
    · intro h
      cases h
      rfl
  | error e t =>
    constructor
    · intro h
      cases h
    · intro h
      cases h

theorem tx_bind_err {f : α → EStateM ε σ β} :
    (x >>= f) s = .error e s' ↔ x s = .error e s' ∨ ∃ a t, x s = .ok a t ∧ f a t = .error e s' := by
  show EStateM.bind x f s = .error e s' ↔ _
  unfold EStateM.bind
  cases hx : x s with
  | ok a t =>
    refine ⟨fun h => .inr ⟨a, t, rfl, h⟩, fun h => ?_⟩
    rcases h with h | ⟨a', t', h, hf⟩
    · cases h
    · cases h
      exact hf
  | error e' t =>
    refine ⟨fun h => .inl ?_, fun h => ?_⟩
    · cases h
      rfl
    · rcases h with h | ⟨a', t', h, _⟩
      · cases h
        rfl
      · cases h

@[simp] theorem tx_pure_err :
    (pure a : EStateM ε σ α) s = .error e s' ↔ False := by
  refine ⟨fun h => ?_, False.elim⟩
  cases h

@[simp] theorem reading_err {f : σ → Except ε α} :
    reading f s = .error e s' ↔ f s = .error e ∧ s = s' := by
  unfold reading
  cases f s with
  | ok a =>
    refine ⟨fun h => ?_, fun h => ?_⟩
    · cases h
    · cases h.1
  | error e' =>
    refine ⟨fun h => ?_, fun h => ?_⟩
    · cases h
      exact ⟨rfl, rfl⟩
    · obtain ⟨h, rfl⟩ := h
      cases h
      rfl

@[simp] theorem lifted_err {x : Except ε α} :
    (lifted x : EStateM ε σ α) s = .error e s' ↔ x = .error e ∧ s = s' := by
  unfold lifted
  exact reading_err

@[simp] theorem writing_err {f : σ → σ} :
    (writing f : EStateM ε σ Unit) s = .error e s' ↔ False := by
  refine ⟨fun h => ?_, False.elim⟩
  cases h

/-- What a call under a savepoint returns, and the store it leaves: an error takes every write
    back. -/
def savepoint (x : EStateM ε σ α) (s : σ) : Except ε α × σ :=
  match x s with
  | .ok a t => (.ok a, t)
  | .error e _ => (.error e, s)

theorem savepoint_ok : savepoint x s = (.ok a, s') ↔ x s = .ok a s' := by
  unfold savepoint
  cases x s with
  | ok b t =>
    constructor
    · intro h
      cases h
      rfl
    · intro h
      cases h
      rfl
  | error e t =>
    constructor
    · intro h
      cases h
    · intro h
      cases h

/-- **Under a savepoint an error leaves the store as it was.** -/
theorem savepoint_error (h : savepoint x s = (.error e, s')) : s' = s := by
  unfold savepoint at h
  cases hx : x s with
  | ok a t =>
    rw [hx] at h
    cases h
  | error e' t =>
    rw [hx] at h
    cases h
    rfl

theorem tx_foldlM_inv {step : β → α → EStateM ε σ β} (I : β → σ → Prop)
    (hstep : ∀ b a s b' s', I b s → step b a s = .ok b' s' → I b' s') :
    ∀ (l : List α) (b : β) (s : σ) (b' : β) (s' : σ), I b s → l.foldlM step b s = .ok b' s' →
      I b' s'
  | [], b, s, b', s', hi, h => by
    obtain ⟨rfl, rfl⟩ := h
    exact hi
  | a :: l, b, s, b', s', hi, h => by
    rw [List.foldlM_cons, tx_bind_ok] at h
    obtain ⟨b₁, s₁, h₁, h₂⟩ := h
    exact tx_foldlM_inv I hstep l b₁ s₁ b' s' (hstep b a s b₁ s₁ hi h₁) h₂

/-- How a computation ends: `Q` of what it returns, or `W` of the error. -/
def Ends (Q : α → σ → Prop) (W : ε → σ → Prop) : EStateM.Result ε σ α → Prop
  | .ok a t => Q a t
  | .error e t => W e t

section Ends

variable {Q Q' : α → σ → Prop} {R : β → σ → Prop} {W W' : ε → σ → Prop} {x : EStateM ε σ α}
  {f : α → EStateM ε σ β} {s : σ}

theorem Ends.ok (h : Ends Q W (x s)) {a : α} {t : σ} (hx : x s = .ok a t) : Q a t := by
  rw [hx] at h
  exact h

theorem Ends.error (h : Ends Q W (x s)) {e : ε} {t : σ} (hx : x s = .error e t) : W e t := by
  rw [hx] at h
  exact h

theorem Ends.told (h : Ends Q W (x s)) : Ends (fun a t => x s = .ok a t ∧ Q a t) W (x s) := by
  cases hx : x s with
  | ok a t => exact ⟨rfl, h.ok hx⟩
  | error e t => exact h.error hx

theorem ends_self : Ends (fun a t => x s = .ok a t) (fun e t => x s = .error e t) (x s) := by
  cases x s with
  | ok a t => exact rfl
  | error e t => exact rfl

theorem Ends.mono {r : EStateM.Result ε σ α} (h : Ends Q W r) (hq : ∀ a t, Q a t → Q' a t)
    (hw : ∀ e t, W e t → W' e t) : Ends Q' W' r := by
  cases r with
  | ok a t => exact hq a t h
  | error e t => exact hw e t h

/-- **A sequence ends as its rest does.** -/
theorem Ends.bind (h : Ends Q W (x s)) (hw : ∀ e t, W e t → W' e t)
    (hf : ∀ a t, Q a t → Ends R W' (f a t)) : Ends R W' ((x >>= f) s) := by
  show Ends R W' (EStateM.bind x f s)
  unfold EStateM.bind
  cases hx : x s with
  | ok a t => exact hf a t (h.ok hx)
  | error e t => exact hw e t (h.error hx)

theorem ends_reading {g : σ → Except ε α} :
    Ends (fun a t => g s = .ok a ∧ t = s) (fun e t => g s = .error e ∧ t = s) (reading g s) := by
  unfold reading
  cases g s with
  | ok a => exact ⟨rfl, rfl⟩
  | error e => exact ⟨rfl, rfl⟩

theorem Ends.reading {g : σ → Except ε α} (hw : ∀ e, g s = .error e → W e s)
    (hf : ∀ a, g s = .ok a → Ends R W (f a s)) : Ends R W ((reading g >>= f) s) := by
  refine ends_reading.bind (fun e t h => ?_) fun a t h => ?_
  · rw [h.2]
    exact hw e h.1
  · rw [h.2]
    exact hf a h.1

theorem Ends.writing {g : σ → σ} {f : Unit → EStateM ε σ β} (h : Ends R W (f () (g s))) :
    Ends R W ((writing g >>= f) s) := h

end Ends

/-- A computation leaves a part of the store alone, whether it returns or fails. -/
def Frames {γ : Type} (part : σ → γ) (x : EStateM ε σ α) : Prop := ∀ s,
  match x s with
  | .ok _ t => part t = part s
  | .error _ t => part t = part s

section Frames

variable {γ : Type} {part : σ → γ} {x : EStateM ε σ α}

theorem Frames.ok (h : Frames part x) {s t : σ} {a : α} (hx : x s = .ok a t) : part t = part s := by
  have hs := h s
  rw [hx] at hs
  exact hs

theorem Frames.error (h : Frames part x) {s t : σ} {e : ε} (hx : x s = .error e t) :
    part t = part s := by
  have hs := h s
  rw [hx] at hs
  exact hs

/-- **What the parts of a sequence leave alone, the sequence does.** -/
theorem Frames.bind {f : α → EStateM ε σ β} (h : Frames part x) (hf : ∀ a, Frames part (f a)) :
    Frames part (x >>= f) := by
  intro s
  have hs : Ends (fun _ t => part t = part s) (fun _ t => part t = part s) (x s) := h s
  refine hs.bind (fun _ _ ht => ht) fun a t ht => ?_
  exact Ends.mono (hf a t) (fun _ _ hu => hu.trans ht) fun _ _ hu => hu.trans ht

theorem frames_pure (a : α) : Frames part (pure a : EStateM ε σ α) := fun _ => rfl

theorem frames_reading (f : σ → Except ε α) : Frames part (reading f) := fun _ =>
  ends_reading.mono (fun _ _ h => congrArg part h.2) fun _ _ h => congrArg part h.2

end Frames

end Computations

/-! ## 2. Runs -/

section Runs

variable {σ ε : Type} {step : σ → ε → σ → Prop}

/-- A run: every event takes the store one step. -/
inductive Trace (step : σ → ε → σ → Prop) : σ → List ε → σ → Prop
  | nil (s : σ) : Trace step s [] s
  | cons {s t u : σ} {e : ε} {es : List ε} (h : step s e t) (rest : Trace step t es u) :
      Trace step s (e :: es) u

variable {es : List ε}

/-- **What every step keeps, a run keeps.** -/
theorem trace_inv (I : σ → Prop) (hstep : ∀ s e t, I s → step s e t → I t) {s u : σ}
    (h : Trace step s es u) : I s → I u := by
  induction h with
  | nil s => exact id
  | cons hst _ ih => exact fun hi => ih (hstep _ _ _ hi hst)

theorem trace_snoc {s t u : σ} {e : ε} (h : Trace step s es t) (he : step t e u) :
    Trace step s (es ++ [e]) u := by
  induction h with
  | nil s => exact .cons he (.nil u)
  | cons hst _ ih => exact .cons hst (ih he)

theorem trace_append {s u : σ} {es fs : List ε} :
    Trace step s (es ++ fs) u ↔ ∃ t, Trace step s es t ∧ Trace step t fs u := by
  induction es generalizing s with
  | nil =>
    refine ⟨fun h => ⟨s, .nil s, h⟩, ?_⟩
    rintro ⟨t, h, hf⟩
    cases h
    exact hf
  | cons e es ih =>
    constructor
    · intro h
      cases h with
      | cons hst rest =>
        obtain ⟨t, ht, hu⟩ := ih.mp rest
        exact ⟨t, .cons hst ht, hu⟩
    · rintro ⟨t, h, hf⟩
      cases h with
      | cons hst rest => exact .cons hst (ih.mpr ⟨t, rest, hf⟩)

/-- **If a run takes a property away, some event of it did.** -/
theorem trace_between (P : σ → Prop) {s u : σ} (h : Trace step s es u) (hs : P s)
    (hu : ¬ P u) : ∃ e ∈ es, ∃ t t', P t ∧ step t e t' ∧ ¬ P t' := by
  induction h with
  | nil s => exact absurd hs hu
  | @cons s t u e es hst _ ih =>
    by_cases ht : P t
    · obtain ⟨e', he', hlost⟩ := ih ht hu
      exact ⟨e', .tail _ he', hlost⟩
    · exact ⟨e, .head _, s, t, hs, hst, ht⟩

end Runs

end Lithograph.Library
