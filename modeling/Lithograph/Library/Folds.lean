/-
  File:      Lithograph/Library/Folds.lean
  Subject:   Runs of a relation along a list.

  * **`Folds.greatest`**: where a step takes the greater of state and item, a run ends with the
    greatest.
-/
import Mathlib.Order.MinMax

namespace Lithograph.Library

variable {σ τ α β : Type} {step : σ → α → σ → Prop} {step' : τ → β → τ → Prop}

/-- Each item of the list takes the state one step on. -/
inductive Folds (step : σ → α → σ → Prop) : σ → List α → σ → Prop where
  | nil (s : σ) : Folds step s [] s
  | cons {s t u : σ} {a : α} {l : List α} (first : step s a t) (rest : Folds step t l u) :
      Folds step s (a :: l) u

section Rules

variable {P : σ → Prop} {R : α → Prop} {s t : σ} {l : List α}

theorem Folds.map (g : σ → τ) (k : α → β)
    (hstep : ∀ s a t, P s → R a → step s a t → step' (g s) (k a) (g t) ∧ P t)
    (hrun : Folds step s l t) (hs : P s) (hl : ∀ a ∈ l, R a) :
    Folds step' (g s) (l.map k) (g t) ∧ P t := by
  induction hrun with
  | nil s => exact ⟨.nil (g s), hs⟩
  | cons hfirst _ ih =>
    obtain ⟨hfirst', ht⟩ := hstep _ _ _ hs (hl _ (.head _)) hfirst
    obtain ⟨hrest, hu⟩ := ih ht fun a ha => hl a (.tail _ ha)
    exact ⟨.cons hfirst' hrest, hu⟩

theorem Folds.forall {Q : α → Prop} (hstep : ∀ s a t, P s → R a → step s a t → Q a ∧ P t)
    (hrun : Folds step s l t) (hs : P s) (hl : ∀ a ∈ l, R a) : (∀ a ∈ l, Q a) ∧ P t := by
  induction hrun with
  | nil => exact ⟨fun _ ha => absurd ha List.not_mem_nil, hs⟩
  | cons hfirst _ ih =>
    obtain ⟨ha, ht⟩ := hstep _ _ _ hs (hl _ (.head _)) hfirst
    obtain ⟨hrest, hu⟩ := ih ht fun a ha => hl a (.tail _ ha)
    exact ⟨List.forall_mem_cons.mpr ⟨ha, hrest⟩, hu⟩

/-- **A run of maxima ends with the greatest of all.** -/
theorem Folds.greatest [LinearOrder σ] (key : α → σ)
    (hstep : ∀ s a t, R a → step s a t → t = max s (key a)) (hrun : Folds step s l t)
    (hl : ∀ a ∈ l, R a) : t ∈ s :: l.map key ∧ ∀ x ∈ s :: l.map key, x ≤ t := by
  induction hrun with
  | nil s =>
    refine ⟨.head _, fun x hx => ?_⟩
    rw [List.mem_singleton.mp hx]
  | @cons s t u a l hfirst _ ih =>
    obtain ⟨hmem, hle⟩ := ih fun b hb => hl b (.tail _ hb)
    have ht := hstep s a t (hl a (.head _)) hfirst
    constructor
    · -- The greatest is one of the later items, or the greater of the first two.
      rcases List.mem_cons.mp hmem with hut | hmem
      · rcases max_choice s (key a) with hmax | hmax
        · rw [hut, ht, hmax]
          exact .head _
        · rw [hut, ht, hmax]
          exact .tail _ (.head _)
      · exact .tail _ (.tail _ hmem)
    · have htu : max s (key a) ≤ u := ht ▸ hle t (.head _)
      intro x hx
      rcases List.mem_cons.mp hx with rfl | hx
      · exact le_trans (le_max_left _ _) htu
      · rcases List.mem_cons.mp hx with rfl | hx
        · exact le_trans (le_max_right _ _) htu
        · exact hle x (.tail _ hx)

end Rules

end Lithograph.Library
