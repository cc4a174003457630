/-
  File:      Lithograph/Library/Outcome.lean
  Subject:   What a fallible computation ends with: a result of a kind, or an error of a kind.
-/
import Lithograph.Library.TreeMap

namespace Lithograph.Library

variable {ε α β σ : Type} {fails : ε → Prop} {P : α → Prop} {x : Except ε α}

/-- **The result satisfies `P`, or the error is one that may occur.** -/
def Outcome (fails : ε → Prop) (P : α → Prop) (x : Except ε α) : Prop :=
  (∃ a, x = .ok a ∧ P a) ∨ ∃ e, x = .error e ∧ fails e

theorem outcome_ok {a : α} (h : P a) : Outcome fails P (.ok a) := .inl ⟨a, rfl, h⟩

theorem Outcome.of_ok (h : Outcome fails P x) {a : α} (hx : x = .ok a) : P a := by
  rcases h with ⟨b, hb, hP⟩ | ⟨e, he, _⟩
  · rw [hx] at hb
    cases hb
    exact hP
  · rw [hx] at he
    cases he

theorem Outcome.mono {Q : α → Prop} (h : Outcome fails P x) (hPQ : ∀ a, P a → Q a) :
    Outcome fails Q x := by
  rcases h with ⟨a, ha, hP⟩ | herror
  · exact .inl ⟨a, ha, hPQ a hP⟩
  · exact .inr herror

/-- The result of a part may be used with the fact that it was returned. -/
theorem Outcome.bind {Q : β → Prop} {f : α → Except ε β} (h : Outcome fails P x)
    (hf : ∀ a, x = .ok a → P a → Outcome fails Q (f a)) : Outcome fails Q (x >>= f) := by
  rcases h with ⟨a, ha, hP⟩ | ⟨e, he, hfails⟩
  · rw [ha, ok_bind]
    exact hf a ha hP
  · rw [he, error_bind]
    exact .inr ⟨e, rfl, hfails⟩

/-- **What a round keeps, the loop keeps.** -/
theorem Outcome.foldlM {step : σ → α → Except ε σ} {I : σ → Prop} :
    ∀ {l : List α}, (∀ s, ∀ a ∈ l, I s → Outcome fails I (step s a)) → ∀ s, I s →
      Outcome fails I (l.foldlM step s)
  | [], _, _, hs => outcome_ok hs
  | a :: l, hstep, s, hs => by
    refine (hstep s a (.head _) hs).bind fun t _ ht => ?_
    exact Outcome.foldlM (fun u b hb => hstep u b (.tail _ hb)) t ht

/-- **A loop over distinct items.** -/
theorem Outcome.foldlM_done {step : σ → α → Except ε σ} {I : (α → Prop) → σ → Prop}
    {l : List α} (hl : l.Nodup)
    (hstep : ∀ done s, ∀ a ∈ l, ¬ done a → I done s →
      Outcome fails (I fun b => b = a ∨ done b) (step s a)) :
    ∀ done s, (∀ a ∈ l, ¬ done a) → I done s →
      Outcome fails (I fun b => b ∈ l ∨ done b) (l.foldlM step s) := by
  induction l with
  | nil =>
    intro done s _ hs
    refine outcome_ok ?_
    have hsame : (fun b => b ∈ ([] : List α) ∨ done b) = done := by simp
    rw [hsame]
    exact hs
  | cons a l ih =>
    intro done s hfresh hs
    obtain ⟨ha, hl⟩ := List.nodup_cons.mp hl
    have ht := hstep done s a (.head _) (hfresh a (.head _)) hs
    refine ht.bind fun t _ ht => ?_
    have hrest := ih hl (fun done u b hb => hstep done u b (.tail _ hb))
      (fun b => b = a ∨ done b) t ?_ ht
    · refine hrest.mono fun u hu => ?_
      have hsame : (fun b => b ∈ a :: l ∨ done b) = fun b => b ∈ l ∨ b = a ∨ done b := by
        funext b
        rw [List.mem_cons, or_comm (a := b = a), or_assoc]
      rw [hsame]
      exact hu
    · intro b hb hdone
      rcases hdone with rfl | hdone
      · exact ha hb
      · exact hfresh b (.tail _ hb) hdone

end Lithograph.Library
