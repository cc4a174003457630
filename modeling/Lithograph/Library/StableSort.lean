/-
  File:      Lithograph/Library/StableSort.lean
  Subject:   Stable sorting by merging neighbouring runs.

  * **`Runs.done`**: where one run is left the sequence is sorted.
-/
import Mathlib.Data.List.Basic

namespace Lithograph.Library

variable {A : Type} {le : A → A → Bool}

/-- What the order does not tell apart. -/
def alike (le : A → A → Bool) (a b : A) : Bool := le a b && le b a

/-- **The elements in order, those that the order does not tell apart as they stood.** -/
structure StableSort (le : A → A → Bool) (l sorted : List A) : Prop where
  perm : sorted.Perm l
  ordered : sorted.Pairwise fun a b => le a b = true
  stable : ∀ a, sorted.filter (alike le a) = l.filter (alike le a)

section

variable (htrans : ∀ a b c, le a b = true → le b c = true → le a c = true)
  (htotal : ∀ a b, (le a b || le b a) = true)
include htrans htotal

omit htrans in
theorem le_refl_of_total (a : A) : le a a = true := by
  have h := htotal a a
  rwa [Bool.or_self] at h

/-- Merging sorted runs keeps what is alike as it stood. -/
theorem filter_merge (a : A) : ∀ {xs ys : List A}, xs.Pairwise (fun x y => le x y = true) →
    ys.Pairwise (fun x y => le x y = true) →
    (xs.merge ys le).filter (alike le a) = xs.filter (alike le a) ++ ys.filter (alike le a)
  | [], ys, _, _ => by rw [List.nil_merge, List.filter_nil, List.nil_append]
  | x :: xs, [], _, _ => by rw [List.merge_right, List.filter_nil, List.append_nil]
  | x :: xs, y :: ys, hxs, hys => by
    by_cases hle : le x y = true
    · have ih := filter_merge a (List.Pairwise.of_cons hxs) hys
      rw [List.cons_merge_cons_pos _ _ _ hle, List.filter_cons, List.filter_cons, ih]
      split <;> rfl
    · have ih := filter_merge a hxs (List.Pairwise.of_cons hys)
      rw [List.cons_merge_cons_neg _ _ _ hle, List.filter_cons, ih]
      cases halike : alike le a y with
      | false =>
        have hskip : (y :: ys).filter (alike le a) = ys.filter (alike le a) :=
          List.filter_cons_of_neg (by rw [halike]; exact Bool.false_ne_true)
        rw [if_neg Bool.false_ne_true, hskip]
      | true =>
        -- `y` comes before all of the first run, so nothing there is like it
        have hnone : (x :: xs).filter (alike le a) = [] := by
          refine List.filter_eq_nil_iff.mpr fun b hb hlike => hle ?_
          have hxb : le x b = true := by
            obtain rfl | hb := List.mem_cons.mp hb
            · exact le_refl_of_total htotal b
            · exact List.rel_of_pairwise_cons hxs hb
          unfold alike at hlike halike
          rw [Bool.and_eq_true] at hlike halike
          exact htrans x b y hxb (htrans b a y hlike.2 halike.1)
        rw [if_pos rfl, hnone, List.nil_append, List.nil_append, List.filter_cons_of_pos halike]

omit htrans in
theorem eq_of_ordered : ∀ {xs ys : List A}, xs.Perm ys →
    xs.Pairwise (fun a b => le a b = true) → ys.Pairwise (fun a b => le a b = true) →
    (∀ a, xs.filter (alike le a) = ys.filter (alike le a)) → xs = ys
  | [], ys, hperm, _, _, _ => (List.nil_perm.mp hperm).symm
  | x :: xs, [], hperm, _, _, _ => absurd (List.perm_nil.mp hperm) (List.cons_ne_nil x xs)
  | x :: xs, y :: ys, hperm, hxs, hys, hsame => by
    have hrefl := le_refl_of_total htotal
    have hxy : le x y = true := by
      obtain rfl | hy := List.mem_cons.mp (hperm.mem_iff.mpr (.head _))
      · exact hrefl y
      · exact List.rel_of_pairwise_cons hxs hy
    have hyx : le y x = true := by
      obtain rfl | hx := List.mem_cons.mp (hperm.mem_iff.mp (.head _))
      · exact hrefl x
      · exact List.rel_of_pairwise_cons hys hx
    -- both are first among what is like them
    have hx : alike le x x = true := by
      unfold alike
      rw [hrefl, Bool.and_self]
    have hy : alike le x y = true := by
      unfold alike
      rw [hxy, hyx, Bool.and_self]
    have hheads := hsame x
    rw [List.filter_cons_of_pos hx, List.filter_cons_of_pos hy] at hheads
    obtain rfl := (List.cons.inj hheads).1
    have hrest : ∀ a, xs.filter (alike le a) = ys.filter (alike le a) := by
      intro a
      have ha := hsame a
      rw [List.filter_cons, List.filter_cons] at ha
      split at ha
      · exact (List.cons.inj ha).2
      · exact ha
    rw [eq_of_ordered (List.Perm.cons_inv hperm) (List.Pairwise.of_cons hxs)
      (List.Pairwise.of_cons hys) hrest]

omit htrans in
/-- **A sequence has one stable sort.** -/
theorem StableSort.unique {l xs ys : List A} (hxs : StableSort le l xs) (hys : StableSort le l ys) :
    xs = ys :=
  eq_of_ordered htotal (hxs.perm.trans hys.perm.symm) hxs.ordered hys.ordered
    fun a => (hxs.stable a).trans (hys.stable a).symm

theorem mergeSort_stable (l : List A) : StableSort le l (l.mergeSort le) where
  perm := List.mergeSort_perm l le
  ordered := List.pairwise_mergeSort htrans htotal l
  stable a := by
    have hclass : (l.filter (alike le a)).Pairwise fun b c => le b c = true := by
      refine List.Pairwise.imp_of_mem ?_ (List.pairwise_of_forall fun _ _ => True.intro)
      intro b c hb hc _
      have hb := (List.mem_filter.mp hb).2
      have hc := (List.mem_filter.mp hc).2
      unfold alike at hb hc
      rw [Bool.and_eq_true] at hb hc
      exact htrans b a c hb.2 hc.1
    have hsub := List.sublist_mergeSort htrans htotal hclass List.filter_sublist
    replace hsub := hsub.filter (alike le a)
    rw [List.filter_filter] at hsub
    simp only [Bool.and_self] at hsub
    have hlength := ((List.mergeSort_perm l le).filter (alike le a)).length_eq
    exact (hsub.eq_of_length hlength.symm).symm

end

/-! ## Runs -/

/-- Neighbouring runs are merged, the last one may have none. -/
def pairMerge (le : A → A → Bool) : List (List A) → List (List A)
  | first :: second :: runs => first.merge second le :: pairMerge le runs
  | runs => runs

/-- The sorted runs that a sequence was cut into. -/
structure Runs (le : A → A → Bool) (l : List A) (runs : List (List A)) : Prop where
  perm : runs.flatten.Perm l
  ordered : ∀ run ∈ runs, run.Pairwise fun a b => le a b = true
  stable : ∀ a, runs.flatten.filter (alike le a) = l.filter (alike le a)

theorem flatten_singletons (l : List A) : (l.map fun a => [a]).flatten = l := by
  induction l with
  | nil => rfl
  | cons a l ih => rw [List.map_cons, List.flatten_cons, ih, List.singleton_append]

theorem runs_singletons (l : List A) : Runs le l (l.map fun a => [a]) := by
  have hflat := flatten_singletons l
  refine ⟨by rw [hflat], fun run hrun => ?_, fun a => by rw [hflat]⟩
  obtain ⟨a, _, rfl⟩ := List.mem_map.mp hrun
  exact List.pairwise_singleton _ a

theorem Runs.pairMerge (htrans : ∀ a b c, le a b = true → le b c = true → le a c = true)
    (htotal : ∀ a b, (le a b || le b a) = true) :
    ∀ {l : List A} {runs : List (List A)}, Runs le l runs → Runs le l (pairMerge le runs)
  | _, [], h => h
  | _, [_], h => h
  | l, first :: second :: runs, h => by
    have hfirst := h.ordered first (.head _)
    have hsecond := h.ordered second (.tail _ (.head _))
    have hrest : Runs le runs.flatten runs :=
      ⟨List.Perm.refl _, fun run hrun => h.ordered run
        (.tail _ (.tail _ hrun)), fun _ => rfl⟩
    have ih := Runs.pairMerge htrans htotal hrest
    refine ⟨List.Perm.trans ?_ h.perm, fun run hrun => ?_, fun a => Eq.trans ?_ (h.stable a)⟩
    · rw [Library.pairMerge, List.flatten_cons, List.flatten_cons, List.flatten_cons,
        ← List.append_assoc]
      exact (List.merge_perm_append le).append ih.perm
    · obtain rfl | hrun := List.mem_cons.mp hrun
      · exact List.pairwise_merge htrans htotal _ _ hfirst hsecond
      · exact ih.ordered run hrun
    · rw [Library.pairMerge, List.flatten_cons, List.flatten_cons, List.flatten_cons,
        List.filter_append, List.filter_append, List.filter_append, ih.stable a,
        filter_merge htrans htotal a hfirst hsecond, List.append_assoc]

/-- **Where one run is left it is the stable sort.** -/
theorem Runs.done {l : List A} {runs : List (List A)} (h : Runs le l runs)
    (hone : runs.length ≤ 1) : StableSort le l runs.flatten := by
  refine ⟨h.perm, ?_, h.stable⟩
  match runs, hone with
  | [], _ => exact List.Pairwise.nil
  | [run], _ =>
    rw [List.flatten_cons, List.flatten_nil, List.append_nil]
    exact h.ordered run (.head _)

/-- All runs are `width` long, but the last may be shorter. -/
def Full (width : Nat) : List (List A) → Prop
  | [] => True
  | [run] => 0 < run.length ∧ run.length ≤ width
  | run :: next :: runs => run.length = width ∧ Full width (next :: runs)

theorem full_singletons : ∀ l : List A, Full 1 (l.map fun a => [a])
  | [] => True.intro
  | [_] => ⟨Nat.one_pos, Nat.le_refl 1⟩
  | _ :: b :: l => ⟨rfl, full_singletons (b :: l)⟩

variable {width : Nat} {run : List A}

theorem Full.tail : ∀ {runs : List (List A)}, Full width (run :: runs) → Full width runs
  | [], _ => True.intro
  | _ :: _, h => h.2

theorem Full.head_le : ∀ {runs : List (List A)}, Full width (run :: runs) → run.length ≤ width
  | [], h => h.2
  | _ :: _, h => Nat.le_of_eq h.1

theorem Full.head_pos (hwidth : 0 < width) :
    ∀ {runs : List (List A)}, Full width (run :: runs) → 0 < run.length
  | [], h => h.1
  | _ :: _, h => h.1 ▸ hwidth

theorem Full.pairMerge (hwidth : 0 < width) :
    ∀ {runs : List (List A)}, Full width runs → Full (2 * width) (pairMerge le runs)
  | [], _ => True.intro
  | [_], h => ⟨h.1, by have := h.2; omega⟩
  | [first, second], h => by
    obtain ⟨hfirst, hpos, hle⟩ := h
    refine ⟨?_, ?_⟩ <;> rw [List.length_merge] <;> omega
  | first :: second :: third :: runs, h => by
    have ih := Full.pairMerge hwidth h.tail.tail
    have hlength : (first.merge second le).length = 2 * width := by
      rw [List.length_merge, h.1, h.2.1, Nat.two_mul]
    cases runs with
    | nil => exact ⟨hlength, ih⟩
    | cons fourth runs => exact ⟨hlength, ih⟩

theorem Full.length_le_one (hwidth : 0 < width) :
    ∀ {runs : List (List A)}, Full width runs → runs.flatten.length ≤ width → runs.length ≤ 1
  | [], _, _ => Nat.zero_le 1
  | [_], _, _ => Nat.le_refl 1
  | first :: second :: runs, h, hle => by
    have hpos := Full.head_pos hwidth h.2
    rw [List.flatten_cons, List.flatten_cons, List.length_append, List.length_append, h.1] at hle
    omega

end Lithograph.Library
