/-
  File:      Lithograph/Library/PrefixFree.lean
  Subject:   Writings that can be told apart whatever follows them.

  * `PrefixFreeOn.sequence`: a whole sequence, where the parts are prefix-free on what it is of.
-/
import Mathlib.Data.List.Basic

namespace Lithograph.Library

variable {α β γ : Type}

/-- **What was written and what follows it can be read off.** -/
def PrefixFree (write : α → List β) : Prop :=
  ∀ (x y : α) (r s : List β), write x ++ r = write y ++ s → x = y ∧ r = s

/-- Prefix-free on the values with a property. -/
def PrefixFreeOn (p : α → Prop) (write : α → List β) : Prop :=
  ∀ (x y : α) (r s : List β), p x → p y → write x ++ r = write y ++ s → x = y ∧ r = s

/-- **A sequence of nonempty parts is told apart.** -/
theorem PrefixFreeOn.sequence {p : α → Prop} {write : α → List β} (h : PrefixFreeOn p write)
    (hparts : ∀ x, write x ≠ []) : ∀ {xs ys : List α}, (∀ x ∈ xs, p x) → (∀ y ∈ ys, p y) →
      xs.flatMap write = ys.flatMap write → xs = ys
  | [], [], _, _, _ => rfl
  | [], y :: ys, _, _, heq => by
    exact absurd (List.append_eq_nil_iff.mp heq.symm).1 (hparts y)
  | x :: xs, [], _, _, heq => by
    exact absurd (List.append_eq_nil_iff.mp heq).1 (hparts x)
  | x :: xs, y :: ys, hx, hy, heq => by
    obtain ⟨hfirst, hrest⟩ := h _ _ _ _ (hx x (.head _)) (hy y (.head _)) heq
    have hothers := PrefixFreeOn.sequence h hparts (fun z hz => hx z (List.mem_cons_of_mem x hz))
      (fun z hz => hy z (List.mem_cons_of_mem y hz)) hrest
    rw [hfirst, hothers]

theorem part_ne_stop {part : List β} {stop : β} (hpart : part.head? ≠ none)
    (hstop : part.head? ≠ some stop) (rest r : List β) : part ++ rest ≠ stop :: r := by
  cases part with
  | nil => exact absurd rfl hpart
  | cons b part =>
    intro heq
    rw [List.cons_append, List.cons.injEq] at heq
    exact hstop (congrArg some heq.1)

/-- Parts one behind the other, up to a stop. -/
def untilStop (write : α → List β) (stop : β) : List α → List β
  | [] => [stop]
  | x :: xs => write x ++ untilStop write stop xs

/-- **A sequence is told apart where no part begins with its stop.** -/
theorem PrefixFree.stopped {write : α → List β} (h : PrefixFree write) {stop : β}
    (hparts : ∀ x, (write x).head? ≠ none) (hstop : ∀ x, (write x).head? ≠ some stop) :
    PrefixFree (untilStop write stop) := by
  intro xs
  induction xs with
  | nil =>
    intro ys r s heq
    cases ys with
    | nil =>
      rw [untilStop, List.singleton_append, List.singleton_append, List.cons.injEq] at heq
      exact ⟨rfl, heq.2⟩
    | cons y ys =>
      rw [untilStop, untilStop, List.append_assoc] at heq
      exact absurd heq.symm (part_ne_stop (hparts y) (hstop y) _ _)
  | cons x xs ih =>
    intro ys r s heq
    cases ys with
    | nil =>
      rw [untilStop, untilStop, List.append_assoc] at heq
      exact absurd heq (part_ne_stop (hparts x) (hstop x) _ _)
    | cons y ys =>
      rw [untilStop, untilStop, List.append_assoc, List.append_assoc] at heq
      obtain ⟨hfirst, heq⟩ := h _ _ _ _ heq
      obtain ⟨hrest, hend⟩ := ih ys r s heq
      exact ⟨by rw [hfirst, hrest], hend⟩

end Lithograph.Library
