/-
  File:      Lithograph/Library/Holdings.lean
  Subject:   What the holders of a shared amount hold together.

  * **`held_set`**: when one slot changes, the sum changes by the difference.
-/
import Mathlib.Algebra.GroupWithZero.Nat
import Mathlib.Data.List.Basic

namespace Lithograph.Library

variable {A : Type} {slots : List (Option A)} {i j : Nat} {slot slot' : Option A}

/-- What a slot holds. -/
def slotWeight (weight : A → Nat) (slot : Option A) : Nat := slot.elim 0 weight

/-- What the slots hold together. -/
def held (weight : A → Nat) (slots : List (Option A)) : Nat := (slots.map (slotWeight weight)).sum

@[simp] theorem held_append (weight : A → Nat) (a b : List (Option A)) :
    held weight (a ++ b) = held weight a + held weight b := by
  rw [held, List.map_append, List.sum_append]
  rfl

@[simp] theorem held_single (weight : A → Nat) (slot : Option A) :
    held weight [slot] = slotWeight weight slot := by
  rw [held, List.map_cons, List.map_nil, List.sum_cons, List.sum_nil, Nat.add_zero]

/-- **When one slot changes, the sum changes by the difference.** -/
theorem held_set (weight : A → Nat) (slot' : Option A) : ∀ {slots : List (Option A)} {i : Nat},
    slots[i]? = some slot →
    held weight (slots.set i slot') + slotWeight weight slot =
      held weight slots + slotWeight weight slot'
  | [], _, h => by cases h
  | first :: rest, 0, h => by
    obtain rfl := Option.some.inj h
    unfold held
    rw [List.set_cons_zero, List.map_cons, List.map_cons, List.sum_cons, List.sum_cons]
    omega
  | first :: rest, i + 1, h => by
    have hrest : rest[i]? = some slot := h
    have ih := held_set weight slot' hrest
    unfold held at ih ⊢
    simp only [List.set_cons_succ, List.map_cons, List.sum_cons]
    omega

theorem le_held (weight : A → Nat) (h : slots[i]? = some slot) :
    slotWeight weight slot ≤ held weight slots := by
  have hset := held_set weight none h
  have hnone : slotWeight weight (none : Option A) = 0 := rfl
  omega

theorem add_le_held (weight : A → Nat) (hne : i ≠ j) (hi : slots[i]? = some slot)
    (hj : slots[j]? = some slot') :
    slotWeight weight slot + slotWeight weight slot' ≤ held weight slots := by
  have hset := held_set weight none hi
  have hrest : (slots.set i none)[j]? = some slot' := by rw [List.getElem?_set_ne hne, hj]
  have hle := le_held weight hrest
  have hnone : slotWeight weight (none : Option A) = 0 := rfl
  omega

theorem held_zero {weight : A → Nat} : ∀ {slots : List (Option A)},
    (∀ slot ∈ slots, slotWeight weight slot = 0) → held weight slots = 0
  | [], _ => rfl
  | first :: rest, h => by
    have hfirst := h first (.head _)
    have ih : held weight rest = 0 :=
      held_zero fun slot hslot => h slot (.tail _ hslot)
    unfold held at ih ⊢
    rw [List.map_cons, List.sum_cons, hfirst, ih]

end Lithograph.Library
