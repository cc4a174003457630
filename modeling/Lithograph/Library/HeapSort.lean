/-
  File:      Lithograph/Library/HeapSort.lean
  Subject:   Sorting by a heap in place.

  * **`sift_heap`**: what came to the top sinks in, and leaves a heap.
  * **`heapSort_perm`**, **`heapSort_ordered`**: what is sorted is the sequence, in order.
-/
import Mathlib.Data.List.Sort

namespace Lithograph.Library

variable {α : Type} {n : Nat}

/-! ## 1. The sort -/

/-- The greater child of a place that has one: the left one, unless the right one is greater. -/
def greaterChild (less : α → α → Bool) (length : Nat) (hlength : length ≤ n) (values : Vector α n)
    (left : Nat) (hleft : left < length) :
    { child : Nat // left ≤ child ∧ child ≤ left + 1 ∧ child < length } :=
  if hright : left + 1 < length then
    if less values[left] values[left + 1] then ⟨left + 1, by omega⟩ else ⟨left, by omega⟩
  else ⟨left, by omega⟩

/-- The element at `root` changes places with its greater child until no child is greater. -/
def sift (less : α → α → Bool) (length : Nat) (hlength : length ≤ n) (values : Vector α n)
    (root : Nat) : Vector α n :=
  if hleft : 2 * root + 1 < length then
    match greaterChild less length hlength values (2 * root + 1) hleft with
    | ⟨child, hchild⟩ =>
      if less values[root] values[child] then
        sift less length hlength (values.swap root child) child
      else values
  else values
  termination_by length - root

/-- Everything from `roots - 1` down to the front sinks in. -/
def buildHeap (less : α → α → Bool) : Nat → Vector α n → Vector α n
  | 0, values => values
  | root + 1, values => buildHeap less root (sift less n (Nat.le_refl n) values root)

/-- The greatest element goes behind the heap, and what was there sinks in from the top. -/
def emptyHeap (less : α → α → Bool) : (length : Nat) → length ≤ n → Vector α n → Vector α n
  | 0, _, values | 1, _, values => values
  | last + 2, h, values =>
    emptyHeap less (last + 1) (by omega)
      (sift less (last + 1) (by omega) (values.swap 0 (last + 1)) 0)

def heapSort (less : α → α → Bool) (values : Vector α n) : Vector α n :=
  emptyHeap less n (Nat.le_refl n) (buildHeap less (n / 2) values)

/-! ## 2. One element sinks -/

/-- A strict order in which what is not behind can be chained. -/
structure StrictWeak (less : α → α → Bool) : Prop where
  asymm : ∀ a b, less a b = true → less b a = false
  trans : ∀ a b c, less b a = false → less c b = false → less c a = false

/-- From `start` on, no element of the first `length` is before one of its children. -/
def HeapFrom (less : α → α → Bool) (length : Nat) (values : Vector α n) (start : Nat) : Prop :=
  ∀ child (hchild : child < n), child < length → 0 < child → start ≤ (child - 1) / 2 →
    less values[(child - 1) / 2] values[child] = false

/-- A heap but for the element at `hole`, whose children are not behind its parent. -/
structure Sinking (less : α → α → Bool) (length : Nat) (values : Vector α n) (start hole : Nat) :
    Prop where
  others : ∀ child (hchild : child < n), child < length → 0 < child → start ≤ (child - 1) / 2 →
    (child - 1) / 2 ≠ hole → less values[(child - 1) / 2] values[child] = false
  above : ∀ child (hchild : child < n) (_ : (child - 1) / 2 = hole), child < length → 0 < hole →
    start ≤ (hole - 1) / 2 → less values[(hole - 1) / 2] values[child] = false

section

variable {less : α → α → Bool} {length : Nat} {hlength : length ≤ n} {values : Vector α n}

theorem greaterChild_greater (hless : StrictWeak less) {left : Nat} {hleft : left < length}
    {child place : Nat} (hchild : child < length)
    (h : (greaterChild less length hlength values left hleft).1 = child) (hplace : place < length)
    (hbetween : left ≤ place ∧ place ≤ left + 1) : less values[child] values[place] = false := by
  have hself : ∀ a, less a a = false := fun a => by
    cases ha : less a a with
    | false => rfl
    | true => exact ha.symm.trans (hless.asymm a a ha)
  obtain rfl | rfl : place = left ∨ place = left + 1 := by omega
  all_goals
    unfold greaterChild at h
    split at h
    · split at h
      next hright =>
        obtain rfl := h
        first | exact hself _ | exact hless.asymm _ _ hright
      next hright =>
        obtain rfl := h
        first | exact hself _ | exact Bool.not_eq_true _ ▸ hright
    · obtain rfl := h
      first | exact hself _ | omega

/-- **An element that is too small sinks.** -/
theorem sift_heap (hless : StrictWeak less) {start : Nat} (values : Vector α n) (root : Nat)
    (hstart : start ≤ root) (h : Sinking less length values start root) :
    HeapFrom less length (sift less length hlength values root) start := by
  fun_induction sift less length hlength values root with
  | case1 values root hleft child hchild hgreatest hbefore ih =>
    have hgreater := fun place => @greaterChild_greater _ _ _ _ hlength values hless _ hleft child
      place hchild.2.2 (congrArg Subtype.val hgreatest)
    refine ih (by omega) ⟨fun place hplace hin hpos hfrom hnot => ?_,
      fun place hplace hat hin hpos hfrom => ?_⟩
    · -- the pairs whose parent is not the new hole
      rw [Vector.getElem_swap, Vector.getElem_swap]
      by_cases hroot : (place - 1) / 2 = root
      · rw [if_pos hroot, if_neg (by omega)]
        split
        · exact hless.asymm _ _ hbefore
        · exact hgreater place hin (by omega)
      · rw [if_neg hroot, if_neg hnot]
        split
        next heq =>
          subst heq
          exact h.above child (by omega) (by omega) hchild.2.2 hpos hfrom
        · rw [if_neg (by omega)]
          exact h.others place hplace hin hpos hfrom hroot
    · -- the children of the new hole, under what came up
      have hparent : (child - 1) / 2 = root := by omega
      have hpair := h.others place hplace hin (by omega) (by omega) (by omega)
      rw [Vector.getElem_swap, Vector.getElem_swap, if_pos hparent, if_neg (by omega),
        if_neg (by omega)]
      simpa only [hat] using hpair
  | case2 values root hleft child hchild hgreatest hbefore =>
    intro place hplace hin hpos hfrom
    by_cases hroot : (place - 1) / 2 = root
    · subst hroot
      exact hless.trans _ _ _ (greaterChild_greater hless hchild.2.2
        (congrArg Subtype.val hgreatest) hin (by omega)) (Bool.not_eq_true _ ▸ hbefore)
    · exact h.others place hplace hin hpos hfrom hroot
  | case3 values root hleft =>
    intro place hplace hin hpos hfrom
    exact h.others place hplace hin hpos hfrom (by omega)

theorem sift_perm (values : Vector α n) (root : Nat) :
    (sift less length hlength values root).Perm values := by
  fun_induction sift less length hlength values root with
  | case1 values root hleft child hchild hgreatest hbefore ih =>
    exact ih.trans (Vector.swap_perm _ _)
  | case2 => exact .rfl
  | case3 => exact .rfl

theorem sift_outside (values : Vector α n) (root : Nat) {place : Nat} (hplace : place < n)
    (hout : length ≤ place) : (sift less length hlength values root)[place] = values[place] := by
  fun_induction sift less length hlength values root with
  | case1 values root hleft child hchild hgreatest hbefore ih =>
    rw [ih, Vector.getElem_swap_of_ne (by omega) (by omega)]
  | case2 => rfl
  | case3 => rfl

theorem sift_inside (less : α → α → Bool) (values : Vector α n) (root : Nat) {place : Nat}
    (hplace : place < n) (hin : place < length) : ∃ source, ∃ hsource : source < n, source < length ∧
      (sift less length hlength values root)[place] = values[source] := by
  fun_induction sift less length hlength values root with
  | case1 values root hleft child hchild hgreatest hbefore ih =>
    obtain ⟨source, hsource, hlt, heq⟩ := ih
    rw [Vector.getElem_swap] at heq
    split at heq
    · exact ⟨child, by omega, hchild.2.2, heq⟩
    · split at heq
      · exact ⟨root, by omega, by omega, heq⟩
      · exact ⟨source, hsource, hlt, heq⟩
  | case2 => exact ⟨place, hplace, hin, rfl⟩
  | case3 => exact ⟨place, hplace, hin, rfl⟩

end

/-! ## 3. The whole sort -/

variable {less : α → α → Bool}

theorem HeapFrom.sinking {length root : Nat} {values : Vector α n}
    (h : HeapFrom less length values (root + 1)) : Sinking less length values root root :=
  ⟨fun child hchild hin hpos hfrom hnot => h child hchild hin hpos (by omega),
    fun child hchild hat hin hpos hfrom => absurd hfrom (by omega)⟩

theorem buildHeap_heap (hless : StrictWeak less) : ∀ (roots : Nat) (values : Vector α n),
    HeapFrom less n values roots → HeapFrom less n (buildHeap less roots values) 0
  | 0, _, h => h
  | root + 1, values, h => by
    unfold buildHeap
    exact buildHeap_heap hless root _ (sift_heap hless values root (Nat.le_refl _) h.sinking)

theorem buildHeap_perm : ∀ (roots : Nat) (values : Vector α n),
    (buildHeap less roots values).Perm values
  | 0, _ => .rfl
  | root + 1, values => by
    unfold buildHeap
    exact (buildHeap_perm root _).trans (sift_perm values root)

theorem HeapFrom.top (hless : StrictWeak less) {length : Nat} {values : Vector α n}
    (h : HeapFrom less length values 0) : ∀ (place : Nat) (hplace : place < n), place < length →
      less values[0] values[place] = false
  | 0, hplace, hin => by
    cases hself : less values[0] values[0] with
    | false => rfl
    | true => exact hself.symm.trans (hless.asymm _ _ hself)
  | place + 1, hplace, hin =>
    hless.trans _ _ _ (h (place + 1) hplace hin (Nat.succ_pos _) (Nat.zero_le _))
      (HeapFrom.top hless h ((place + 1 - 1) / 2) (by omega) (by omega))

theorem popped_source (less : α → α → Bool) {last : Nat} (hlast : last + 1 < n)
    {hshort : last + 1 ≤ n} (values : Vector α n) {place : Nat} (hplace : place < n) :
    ∃ source, ∃ hsource : source < n,
      (source = place ∨ place < last + 2 ∧ source < last + 2) ∧
        (sift less (last + 1) hshort (values.swap 0 (last + 1)) 0)[place] = values[source] := by
  obtain ⟨moved, hmoved, hwhere, heq⟩ : ∃ moved, ∃ hmoved : moved < n,
      (moved = place ∨ place < last + 1 ∧ moved < last + 1) ∧
        (sift less (last + 1) hshort (values.swap 0 (last + 1)) 0)[place] =
          (values.swap 0 (last + 1))[moved] := by
    rcases Nat.lt_or_ge place (last + 1) with hin | hout
    · obtain ⟨moved, hmoved, hlt, heq⟩ :=
        sift_inside less (values.swap 0 (last + 1)) 0 hplace hin
      exact ⟨moved, hmoved, .inr ⟨hin, hlt⟩, heq⟩
    · exact ⟨place, hplace, .inl rfl, sift_outside _ 0 hplace hout⟩
  rw [Vector.getElem_swap] at heq
  split at heq
  · exact ⟨last + 1, hlast, .inr (by omega), heq⟩
  · split at heq
    · exact ⟨0, by omega, .inr (by omega), heq⟩
    · exact ⟨moved, hmoved, by omega, heq⟩

/-- What is behind the heap is in order, and nothing before it is greater. -/
theorem emptyHeap_ordered (hless : StrictWeak less) : ∀ (length : Nat) (hlength : length ≤ n)
    (values : Vector α n), HeapFrom less length values 0 →
    (∀ i j (hi : i < j) (hj : j < n), length ≤ j → less values[j] values[i] = false) →
    ∀ i j (hi : i < j) (hj : j < n),
      less (emptyHeap less length hlength values)[j]
        (emptyHeap less length hlength values)[i] = false
  | 0, _, values, _, h | 1, _, values, _, h => fun i j hi hj => h i j hi hj (by omega)
  | last + 2, hlength, values, hheap, h => by
    have hsunk : Sinking less (last + 1) (values.swap 0 (last + 1)) 0 0 :=
      ⟨fun child hchild hin hpos _ hnot => by
        rw [Vector.getElem_swap_of_ne hnot (by omega),
          Vector.getElem_swap_of_ne (by omega) (by omega)]
        exact hheap child hchild (by omega) hpos (Nat.zero_le _),
      fun child hchild _ _ hpos _ => absurd hpos (Nat.lt_irrefl 0)⟩
    unfold emptyHeap
    refine emptyHeap_ordered hless (last + 1) (by omega) _
      (sift_heap hless _ 0 (Nat.le_refl 0) hsunk) fun i j hi hj hout => ?_
    obtain ⟨source, hsource, hwhere, heq⟩ :=
      popped_source less hlength values (Nat.lt_trans hi hj)
    rw [sift_outside _ 0 hj hout, heq]
    by_cases hlast : j = last + 1
    · subst hlast
      rw [Vector.getElem_swap_right]
      exact hheap.top hless source hsource (by omega)
    · rw [Vector.getElem_swap_of_ne (by omega) hlast]
      exact h source j (by omega) hj (by omega)

theorem emptyHeap_perm : ∀ (length : Nat) (hlength : length ≤ n) (values : Vector α n),
    (emptyHeap less length hlength values).Perm values
  | 0, _, _ | 1, _, _ => .rfl
  | last + 2, hlength, values => by
    unfold emptyHeap
    exact (emptyHeap_perm (last + 1) _ _).trans ((sift_perm _ 0).trans (Vector.swap_perm _ _))

/-- **Sorting only changes places.** -/
theorem heapSort_perm (values : Vector α n) : (heapSort less values).toList.Perm values.toList :=
  ((emptyHeap_perm n _ _).trans (buildHeap_perm (n / 2) values)).toList

/-- **What is sorted is in order.** -/
theorem heapSort_ordered (hless : StrictWeak less) (values : Vector α n) :
    (heapSort less values).toList.Pairwise fun a b => less b a = false := by
  have hheap : HeapFrom less n values (n / 2) :=
    fun child hchild _ hpos hfrom => absurd hfrom (by omega)
  rw [List.pairwise_iff_getElem]
  intro i j hi hj hij
  exact emptyHeap_ordered hless n (Nat.le_refl n) _ (buildHeap_heap hless _ _ hheap)
    (fun _ _ _ hj hout => absurd hout (Nat.not_le_of_lt hj)) i j hij (by simpa using hj)

end Lithograph.Library
