/-
  File:      Lithograph/Library/KeyRange.lean
  Subject:   The entries of an ordered map from one key to another.

  * `between_pair`: between two pairs with the same first part are the pairs with that first part.
-/
import Lithograph.Library.Overlay

namespace Lithograph.Library

open Std

section Walk

variable {α : Type} {R : α → α → Prop} {p : α → Bool}

theorem dropWhile_eq_filter (hp : ∀ a b, R a b → p b = true → p a = true) :
    ∀ {l : List α}, l.Pairwise R → l.dropWhile p = l.filter fun a => !p a
  | [], _ => rfl
  | a :: l, h => by
      obtain ⟨hhead, htail⟩ := List.pairwise_cons.mp h
      by_cases ha : p a = true
      · rw [List.dropWhile_cons_of_pos ha, dropWhile_eq_filter hp htail,
          List.filter_cons_of_neg (by rw [ha]; exact Bool.false_ne_true)]
      · rw [List.dropWhile_cons_of_neg ha, List.filter_cons_of_pos (by simp [ha])]
        have hrest : l.filter (fun b => !p b) = l := by
          rw [List.filter_eq_self]
          intro b hb
          cases hpb : p b with
          | false => rfl
          | true => exact absurd (hp a b (hhead b hb) hpb) ha
        rw [hrest]

theorem takeWhile_eq_filter (hp : ∀ a b, R a b → p b = true → p a = true) :
    ∀ {l : List α}, l.Pairwise R → l.takeWhile p = l.filter p
  | [], _ => rfl
  | a :: l, h => by
      obtain ⟨hhead, htail⟩ := List.pairwise_cons.mp h
      by_cases ha : p a = true
      · rw [List.takeWhile_cons_of_pos ha, takeWhile_eq_filter hp htail, List.filter_cons_of_pos ha]
      · rw [List.takeWhile_cons_of_neg ha, List.filter_cons_of_neg ha]
        symm
        rw [List.filter_eq_nil_iff]
        intro b hb hpb
        exact ha (hp a b (hhead b hb) hpb)

end Walk

section Range

variable {K V : Type} [Ord K] [TransOrd K] [LawfulEqOrd K]

/-- From one key to another, both included. -/
def Between (lo hi k : K) : Prop := compare k lo ≠ .lt ∧ compare k hi ≠ .gt

instance (lo hi k : K) : Decidable (Between lo hi k) :=
  inferInstanceAs (Decidable (_ ∧ _))

/-- The entries of a map from one key to another, both included, in order. -/
def keyRange (m : ExtTreeMap K V) (lo hi : K) : List (K × V) :=
  (m.toList.dropWhile fun e => compare e.1 lo = .lt).takeWhile fun e => compare e.1 hi ≠ .gt

omit [LawfulEqOrd K] in
/-- **The walk of a range is the test of every entry.** -/
theorem keyRange_eq_filter (m : ExtTreeMap K V) (lo hi : K) :
    keyRange m lo hi = m.toList.filter fun e => Between lo hi e.1 := by
  unfold keyRange
  rw [dropWhile_eq_filter (R := KeyLt) (fun a b hab hb => ?_) (sorted_toList m),
    takeWhile_eq_filter (R := KeyLt) (fun a b hab hb => ?_) ((sorted_toList m).filter _),
    List.filter_filter]
  · refine List.filter_congr fun e _ => ?_
    unfold Between
    by_cases hlo : compare e.1 lo = .lt <;> by_cases hhi : compare e.1 hi = .gt <;> simp [hlo, hhi]
  · -- what comes before a key that is not past the end is not past it either
    simp only [ne_eq, decide_eq_true_eq] at hb ⊢
    intro ha
    have hle : compare hi a.1 = .lt := OrientedCmp.gt_iff_lt.mp ha
    exact hb (OrientedCmp.gt_iff_lt.mpr (TransCmp.lt_trans hle hab))
  · simp only [decide_eq_true_eq] at hb ⊢
    exact TransCmp.lt_trans hab hb

omit [LawfulEqOrd K] in
theorem keyRange_sorted (m : ExtTreeMap K V) (lo hi : K) : (keyRange m lo hi).Pairwise KeyLt := by
  rw [keyRange_eq_filter]
  exact (sorted_toList m).filter _

theorem mem_keyRange {m : ExtTreeMap K V} {lo hi : K} {e : K × V} :
    e ∈ keyRange m lo hi ↔ m[e.1]? = some e.2 ∧ Between lo hi e.1 := by
  rw [keyRange_eq_filter, List.mem_filter, ExtTreeMap.mem_toList_iff_getElem?_eq_some,
    decide_eq_true_eq]

end Range

section Pair

variable {A B : Type} [Ord A] [TransOrd A] [LawfulEqOrd A] [Ord B]

omit [TransOrd A] [LawfulEqOrd A] in
theorem compare_prod (a c : A) (b d : B) :
    compare (a, b) (c, d) = (compare a c).then (compare b d) := rfl

/-- **Between two pairs with the same first part.** -/
theorem between_pair {a c : A} {b lo hi : B} :
    Between (c, lo) (c, hi) (a, b) ↔ a = c ∧ Between lo hi b := by
  unfold Between
  rw [compare_prod, compare_prod]
  cases hac : compare a c with
  | lt =>
    have hne : a ≠ c := fun h => compare_lt_irrefl c (h ▸ hac)
    simp [Ordering.then, hne]
  | eq =>
    have heq : a = c := LawfulEqCmp.eq_of_compare hac
    simp [Ordering.then, heq]
  | gt =>
    have hne : a ≠ c := fun h => by
      have hself : compare c c = .eq := ReflCmp.compare_self
      rw [h, hself] at hac
      cases hac
    simp [Ordering.then, hne]

omit [TransOrd A] [LawfulEqOrd A] in
theorem between_parts {a la ha : A} {b lb hb : B} (h : Between la ha a) (h' : Between lb hb b) :
    Between (la, lb) (ha, hb) (a, b) := by
  unfold Between at h h' ⊢
  rw [compare_prod, compare_prod]
  refine ⟨?_, ?_⟩
  · cases hlo : compare a la with
    | lt => exact absurd hlo h.1
    | eq => exact h'.1
    | gt => exact fun heq => by cases heq
  · cases hhi : compare a ha with
    | lt => exact fun heq => by cases heq
    | eq => exact h'.2
    | gt => exact absurd hhi h.2

end Pair

theorem between_int {lo hi k : Int} : Between lo hi k ↔ lo ≤ k ∧ k ≤ hi := by
  unfold Between
  rw [Int.compare_ne_lt, Int.compare_ne_gt]

end Lithograph.Library
