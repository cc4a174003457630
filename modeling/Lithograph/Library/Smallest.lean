/-
  File:      Lithograph/Library/Smallest.lean
  Subject:   The smallest elements of a set, kept while the set is read.

  * **`Smallest.fold`**: what is kept in the end are the smallest of all that was taken in.
-/
import Mathlib.Order.Lattice
import Mathlib.Order.Defs.LinearOrder
import Mathlib.Data.List.Basic
import Mathlib.Data.List.Perm.Subperm

namespace Lithograph.Library

variable {α : Type} [LinearOrder α]

/-- An ascending list with one more element. -/
def insertAscending (x : α) : List α → List α
  | [] => [x]
  | y :: ys =>
    if x < y then x :: y :: ys
    else if x = y then y :: ys
    else y :: insertAscending x ys

/-- One more element, and at most `limit` of them kept. -/
def keepSmallest (limit : Nat) (l : List α) (x : α) : List α :=
  let l := insertAscending x l
  if limit < l.length then l.dropLast else l

/-- The list has the smallest elements of a set, at most `limit` of them. -/
structure Smallest (limit : Nat) (P : α → Prop) (l : List α) : Prop where
  ascending : l.Pairwise (· < ·)
  within : ∀ x ∈ l, P x
  bounded : l.length ≤ limit
  rest : ∀ x, P x → x ∉ l → l.length = limit ∧ ∀ y ∈ l, y < x

variable {l : List α} {limit : Nat} {P : α → Prop}

theorem mem_insertAscending {x y : α} : y ∈ insertAscending x l ↔ y = x ∨ y ∈ l := by
  induction l with
  | nil => rw [insertAscending, List.mem_singleton, List.mem_nil_iff, or_false]
  | cons z zs ih =>
    rw [insertAscending]
    split
    · rw [List.mem_cons]
    · split
      · next heq =>
        rw [heq, List.mem_cons]
        exact ⟨Or.inr, fun h => h.elim Or.inl id⟩
      · rw [List.mem_cons, ih, List.mem_cons, or_left_comm]

theorem pairwise_insertAscending {x : α} (h : l.Pairwise (· < ·)) :
    (insertAscending x l).Pairwise (· < ·) := by
  induction l with
  | nil => exact List.pairwise_singleton _ _
  | cons z zs ih =>
    obtain ⟨hz, hzs⟩ := List.pairwise_cons.mp h
    rw [insertAscending]
    split
    · next hlt =>
      refine List.pairwise_cons.mpr ⟨fun y hy => ?_, h⟩
      obtain rfl | hy := List.mem_cons.mp hy
      · exact hlt
      · exact lt_trans hlt (hz y hy)
    · next hnot =>
      split
      · exact h
      · next hne =>
        refine List.pairwise_cons.mpr ⟨fun y hy => ?_, ih hzs⟩
        obtain rfl | hy := mem_insertAscending.mp hy
        · exact lt_of_le_of_ne (not_lt.mp hnot) (Ne.symm hne)
        · exact hz y hy

theorem length_insertAscending (x : α) (l : List α) :
    (insertAscending x l).length = l.length + 1 ∨
      x ∈ l ∧ (insertAscending x l).length = l.length := by
  induction l with
  | nil => exact Or.inl rfl
  | cons z zs ih =>
    rw [insertAscending]
    split
    · exact Or.inl rfl
    · split
      · next heq => exact Or.inr ⟨heq ▸ (.head _), rfl⟩
      · obtain hlonger | ⟨hmem, hsame⟩ := ih
        · exact Or.inl (congrArg (· + 1) hlonger)
        · exact Or.inr ⟨.tail _ hmem, congrArg (· + 1) hsame⟩

theorem Smallest.nil (limit : Nat) : Smallest limit (fun _ : α => False) [] :=
  ⟨List.Pairwise.nil, fun _ h => (List.not_mem_nil h).elim, Nat.zero_le _, fun _ h => h.elim⟩

/-- **One more element is taken in.** -/
theorem Smallest.keep (h : Smallest limit P l) (x : α) :
    Smallest limit (fun y => P y ∨ y = x) (keepSmallest limit l x) := by
  have hascending := pairwise_insertAscending (x := x) h.ascending
  have hmem : ∀ y, y ∈ insertAscending x l ↔ y = x ∨ y ∈ l := fun y => mem_insertAscending
  have hlength := length_insertAscending x l
  have hbounded := h.bounded
  have hwithin : ∀ y ∈ insertAscending x l, P y ∨ y = x := fun y hy =>
    ((hmem y).mp hy).elim Or.inr fun hy => Or.inl (h.within y hy)
  have hout : ∀ y, P y ∨ y = x → y ∉ insertAscending x l → l.length = limit ∧ ∀ z ∈ l, z < y := by
    intro y hy hnot
    rw [hmem, not_or] at hnot
    exact h.rest y (hy.resolve_right hnot.1) hnot.2
  unfold keepSmallest
  dsimp only
  split
  · -- the last one is given up
    next hlong =>
    have hnonempty := List.ne_nil_of_length_pos (Nat.lt_of_le_of_lt (Nat.zero_le limit) hlong)
    obtain ⟨front, last, hsplit⟩ : ∃ front last, insertAscending x l = front ++ [last] :=
      ⟨_, _, (List.dropLast_concat_getLast hnonempty).symm⟩
    rw [hsplit] at hascending hmem hlength hwithin hout hlong ⊢
    rw [List.dropLast_concat]
    rw [List.length_append, List.length_singleton] at hlong hlength
    obtain ⟨hfront, _, hlast⟩ := List.pairwise_append.mp hascending
    have hfrontLast : ∀ z ∈ front, z < last := fun z hz => hlast z hz last (.head _)
    refine ⟨hfront, fun y hy => hwithin y (List.mem_append_left _ hy), by omega, ?_⟩
    intro y hy hnot
    refine ⟨by omega, fun z hz => ?_⟩
    by_cases hyLast : y = last
    · exact hyLast ▸ hfrontLast z hz
    · have hynot : y ∉ front ++ [last] := by
        rw [List.mem_append, List.mem_singleton]
        exact fun h => h.elim hnot hyLast
      obtain ⟨_, hall⟩ := hout y hy hynot
      -- an element of the old list lies above what is kept
      have hsome : z ∈ l ∨ last ∈ l := by
        obtain rfl | hz' := (hmem z).mp (List.mem_append_left _ hz)
        · obtain hlast' | hlast' := (hmem last).mp (List.mem_append_right _ (.head _))
          · exact absurd (hlast' ▸ hfrontLast _ hz) (lt_irrefl _)
          · exact Or.inr hlast'
        · exact Or.inl hz'
      obtain hz' | hlast' := hsome
      · exact hall z hz'
      · exact lt_trans (hfrontLast z hz) (hall last hlast')
  · next hshort =>
    refine ⟨hascending, hwithin, by omega, ?_⟩
    intro y hy hnot
    obtain ⟨hfull, hall⟩ := hout y hy hnot
    refine ⟨by omega, fun z hz => ?_⟩
    obtain rfl | hz := (hmem z).mp hz
    · obtain hlonger | ⟨hz, _⟩ := hlength
      · omega
      · exact hall _ hz
    · exact hall z hz

/-- **What is kept in the end are the smallest of all.** -/
theorem Smallest.fold (xs : List α) (h : Smallest limit P l) :
    Smallest limit (fun y => P y ∨ y ∈ xs) (xs.foldl (keepSmallest limit) l) := by
  induction xs generalizing P l with
  | nil =>
    have hsame : (fun y => P y ∨ y ∈ ([] : List α)) = P := funext fun y => by
      rw [List.mem_nil_iff, or_false]
    rw [hsame]
    exact h
  | cons x xs ih =>
    have hsame : (fun y => P y ∨ y ∈ x :: xs) = fun y => (P y ∨ y = x) ∨ y ∈ xs :=
      funext fun y => by rw [List.mem_cons, or_assoc]
    rw [hsame]
    exact ih (h.keep x)

/-- **Where the limit is reached below an element, all that is kept is below it.** -/
theorem Smallest.full_below {l before : List α} {y : α}
    (h : Smallest limit P l) (hnodup : before.Nodup) (hbefore : ∀ x ∈ before, P x ∧ x < y)
    (hcount : limit ≤ before.length) : l.length = limit ∧ ∀ z ∈ l, z < y := by
  have hbounded := h.bounded
  by_cases hall : ∀ x ∈ before, x ∈ l
  · have hle := (List.subperm_of_subset hnodup hall).length_le
    refine ⟨by omega, fun z hz => not_le.mp fun hyz => ?_⟩
    -- one more element than there may be
    have hnew : z ∉ before := fun hmem => not_lt.mpr hyz (hbefore z hmem).2
    have hmore := (List.subperm_of_subset (List.nodup_cons.mpr ⟨hnew, hnodup⟩)
      (List.cons_subset.mpr ⟨hz, hall⟩)).length_le
    rw [List.length_cons] at hmore
    omega
  · obtain ⟨x, hx, hnot⟩ : ∃ x ∈ before, x ∉ l := by
      by_contra hnone
      exact hall fun x hx => not_not.mp fun hnot => hnone ⟨x, hx, hnot⟩
    obtain ⟨hfull, hbelow⟩ := h.rest x (hbefore x hx).1 hnot
    exact ⟨hfull, fun z hz => lt_trans (hbelow z hz) (hbefore x hx).2⟩

end Lithograph.Library
