/-
  File:      Lithograph/Library/Yields.lean
  Subject:   What a computation over a store returns, whenever it returns.
-/
import Lithograph.Library.Transaction

namespace Lithograph.Library

variable {σ ε α β γ δ : Type}

/-- Whatever a computation returns satisfies this. -/
def Yields (x : EStateM ε σ α) (P : α → Prop) : Prop := ∀ s a t, x s = .ok a t → P a

variable {P : α → Prop}

theorem yields_pure {a : α} (h : P a) : Yields (pure a : EStateM ε σ α) P := by
  intro s b t hb
  cases hb
  exact h

theorem yields_any (x : EStateM ε σ α) : Yields x fun _ => True := fun _ _ _ _ => trivial

theorem Yields.bind {x : EStateM ε σ α} {f : α → EStateM ε σ β} {Q : β → Prop}
    (h : Yields x P) (hf : ∀ a, P a → Yields (f a) Q) : Yields (x >>= f) Q := by
  intro s b t hb
  obtain ⟨a, u, hx, hfa⟩ := tx_bind_ok.mp hb
  exact hf a (h s a u hx) u b t hfa

theorem Yields.mono {x : EStateM ε σ α} {P Q : α → Prop} (h : Yields x P) (hPQ : ∀ a, P a → Q a) :
    Yields x Q := fun s a t hx => hPQ a (h s a t hx)

theorem yields_ite {c : Prop} [Decidable c] {x y : EStateM ε σ α}
    (hx : Yields x P) (hy : Yields y P) : Yields (if c then x else y) P := by
  split
  · exact hx
  · exact hy

/-- **A loop returns what the pure loop does.** -/
theorem Yields.foldlM {step : β → α → EStateM ε σ β} (view : β → γ) (round : γ → α → γ)
    {l : List α} (h : ∀ b a, a ∈ l → Yields (step b a) fun b' => view b' = round (view b) a) :
    ∀ b, Yields (l.foldlM step b) fun b' => view b' = l.foldl round (view b) := by
  induction l with
  | nil => exact fun b => yields_pure rfl
  | cons a l ih =>
    intro b
    refine (h b a (.head _)).bind fun b' hb' => ?_
    rw [List.foldl_cons, ← hb']
    exact ih (fun b a ha => h b a (.tail _ ha)) b'

end Lithograph.Library
