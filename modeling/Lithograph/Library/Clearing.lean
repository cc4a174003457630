/-
  File:      Lithograph/Library/Clearing.lean
  Subject:   States that are others less some of their facts.

  * **`Clears.same`**: what is gone says what is left, in whatever order it went.
-/
import Lithograph.Library.TreeMap

namespace Lithograph.Library

variable {σ K : Type} {V : K → Type} {read : (k : K) → σ → Option (V k)}
  {gone gone' : K → Prop} {s s' s'' : σ}

/-- **The second state is the first less the facts that are gone.** -/
structure Clears (read : (k : K) → σ → Option (V k)) (gone : K → Prop) (s s' : σ) : Prop where
  cleared : ∀ k, gone k → read k s' = none
  kept : ∀ k, ¬ gone k → read k s' = read k s

theorem clears_refl (s : σ) : Clears read (fun _ => False) s s :=
  ⟨fun _ h => h.elim, fun _ _ => rfl⟩

theorem Clears.left (h : Clears read gone s s') {k : K} {v : V k} (hv : read k s' = some v) :
    read k s = some v ∧ ¬ gone k := by
  have hk : ¬ gone k := by
    intro hgone
    rw [h.cleared k hgone] at hv
    cases hv
  rw [h.kept k hk] at hv
  exact ⟨hv, hk⟩

theorem Clears.absent (h : Clears read gone s s') {k : K} (hk : read k s = none) :
    read k s' = none := by
  by_cases hgone : gone k
  · exact h.cleared k hgone
  · rw [h.kept k hgone, hk]

theorem Clears.trans (h : Clears read gone s s') (h' : Clears read gone' s' s'') :
    Clears read (fun k => gone k ∨ gone' k) s s'' := by
  refine ⟨fun k hk => ?_, fun k hk => ?_⟩
  · by_cases hlater : gone' k
    · exact h'.cleared k hlater
    · rw [h'.kept k hlater]
      exact h.cleared k (hk.resolve_right hlater)
  · rw [h'.kept k fun hk' => hk (.inr hk'), h.kept k fun hk' => hk (.inl hk')]

theorem Clears.widen (h : Clears read gone s s') (hsub : ∀ k, gone k → gone' k)
    (habsent : ∀ k, gone' k → gone k ∨ read k s = none) : Clears read gone' s s' := by
  refine ⟨fun k hk => ?_, fun k hk => h.kept k fun hgone => hk (hsub k hgone)⟩
  rcases habsent k hk with hgone | hnone
  · exact h.cleared k hgone
  · exact h.absent hnone

/-- **What is gone says what is left.** -/
theorem Clears.same (h : Clears read gone s s') (h' : Clears read gone s s'') (k : K) :
    read k s' = read k s'' := by
  by_cases hk : gone k
  · rw [h.cleared k hk, h'.cleared k hk]
  · rw [h.kept k hk, h'.kept k hk]

end Lithograph.Library
