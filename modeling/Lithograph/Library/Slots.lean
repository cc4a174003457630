/-
  File:      Lithograph/Library/Slots.lean
  Subject:   Change tracking: a table of touched cells with the first old value and the latest new
             one.

  A state is read as a function from cells to values. `Tracks` says that the table tells the truth
  about the state before and the state now; `tracks_touch` keeps it over one write.
-/
import Lithograph.Library.TreeMap

namespace Lithograph.Library

open Std

/-- A touched cell: its value at first touch and its value now. -/
structure Slot (α : Type) where
  before : α
  current : α

section Slots

variable {κ α : Type} [Ord κ] [TransOrd κ]

/-- `entry(k).or_insert(before).current = current`. -/
def touch (slots : ExtTreeMap κ (Slot α)) (k : κ) (before current : α) : ExtTreeMap κ (Slot α) :=
  match slots[k]? with
  | some slot => slots.insert k { slot with current }
  | none => slots.insert k ⟨before, current⟩

/-- The table tells the truth about the state before and the state now. -/
def Tracks (slots : ExtTreeMap κ (Slot α)) (base staged : κ → α) : Prop :=
  ∀ k, match slots[k]? with
    | some slot => slot.before = base k ∧ slot.current = staged k
    | none => staged k = base k

theorem tracks_empty (base : κ → α) : Tracks (∅ : ExtTreeMap κ (Slot α)) base base := by
  intro k
  simp

variable {slots : ExtTreeMap κ (Slot α)} {base staged : κ → α}

theorem tracks_some
    (h : Tracks slots base staged) {k : κ} {slot : Slot α} (hk : slots[k]? = some slot) :
    slot.before = base k ∧ slot.current = staged k := by
  have := h k
  rwa [hk] at this

theorem tracks_none
    (h : Tracks slots base staged) {k : κ} (hk : slots[k]? = none) : staged k = base k := by
  have := h k
  rwa [hk] at this

theorem getElem?_touch [LawfulEqOrd κ] [DecidableEq κ] (k j : κ) (before current : α) :
    (touch slots k before current)[j]? =
      if j = k then some ⟨(slots[k]?.map Slot.before).getD before, current⟩ else slots[j]? := by
  unfold touch
  cases slots[k]? with
  | none => exact lookup_insert slots k j ⟨before, current⟩
  | some slot => exact lookup_insert slots k j { slot with current }

/-- **One write keeps the table true.** -/
theorem tracks_touch [LawfulEqOrd κ] [DecidableEq κ]
    (h : Tracks slots base staged) (k : κ) (staged' : κ → α)
    (hother : ∀ j, j ≠ k → staged' j = staged j) :
    Tracks (touch slots k (base k) (staged' k)) base staged' := by
  intro j
  rw [getElem?_touch]
  by_cases hj : j = k
  · subst hj
    rw [if_pos rfl]
    refine ⟨?_, rfl⟩
    cases hs : slots[j]? with
    | none => rfl
    | some slot => exact (tracks_some h hs).1
  · rw [if_neg hj]
    cases hs : slots[j]? with
    | none =>
      show staged' j = base j
      rw [hother j hj]
      exact tracks_none h hs
    | some slot =>
      refine ⟨(tracks_some h hs).1, ?_⟩
      rw [hother j hj]
      exact (tracks_some h hs).2

end Slots

end Lithograph.Library
