/-
  File:      Lithograph/Library/Lexicographic.lean
  Subject:   The order of words, computed by loops.

  * **`chunks_then_length`**: chunk by chunk, the lengths behind the chunks.
-/
import Mathlib.Data.List.Basic

namespace Lithograph.Library

open Std

variable {α : Type} {cmp : α → α → Ordering}

/-! ## 1. Place by place -/

/-- A loop over pairs that ends at the first difference. -/
def zipOrder (cmp : α → α → Ordering) : List α → List α → Ordering
  | a :: l, b :: r => (cmp a b).then (zipOrder cmp l r)
  | _, _ => .eq

theorem compare_succ (n m : Nat) : compare (n + 1) (m + 1) = compare n m := by
  rw [Nat.compare_eq_ite_lt, Nat.compare_eq_ite_lt]
  simp only [Nat.add_lt_add_iff_right]

theorem compareLex_cons (a b : α) (l r : List α) :
    List.compareLex cmp (a :: l) (b :: r) = (cmp a b).then (List.compareLex cmp l r) := by
  rw [List.compareLex_cons_cons]

/-- **Place by place, then lengths, is the order of words.** -/
theorem zipOrder_then_length : ∀ l r : List α,
    (zipOrder cmp l r).then (compare l.length r.length) = List.compareLex cmp l r
  | [], [] => rfl
  | [], _ :: _ => rfl
  | _ :: _, [] => rfl
  | a :: l, b :: r => by
    rw [compareLex_cons, ← zipOrder_then_length l r, zipOrder, Ordering.then_assoc, List.length_cons,
      List.length_cons, compare_succ]

theorem zipOrder_eq {l r : List α} (h : l.length = r.length) :
    zipOrder cmp l r = List.compareLex cmp l r := by
  rw [← zipOrder_then_length, h, ReflOrd.compare_self, Ordering.then_eq]

/-- Words are equal where letters are. -/
theorem compareLex_eq (heq : ∀ a b, cmp a b = .eq ↔ a = b) :
    ∀ {l r : List α}, List.compareLex cmp l r = .eq ↔ l = r
  | [], [] => ⟨fun _ => rfl, fun _ => rfl⟩
  | [], _ :: _ => ⟨fun h => (by cases h), fun h => (by cases h)⟩
  | _ :: _, [] => ⟨fun h => (by cases h), fun h => (by cases h)⟩
  | a :: l, b :: r => by
    rw [compareLex_cons, Ordering.then_eq_eq, heq, compareLex_eq heq, List.cons.injEq]

/-! ## 2. Chunk by chunk -/

/-- Consecutive parts of a list. The number bounds how many. -/
def chunks (size : Nat) : Nat → List α → List (List α)
  | 0, _ => []
  | _ + 1, [] => []
  | fuel + 1, a :: l => (a :: l).take size :: chunks size fuel ((a :: l).drop size)

theorem compareLex_cut : ∀ (n : Nat) (l r : List α), List.compareLex cmp l r =
    (List.compareLex cmp (l.take n) (r.take n)).then (List.compareLex cmp (l.drop n) (r.drop n))
  | 0, l, r => rfl
  | n + 1, [], [] => rfl
  | n + 1, [], _ :: _ => rfl
  | n + 1, _ :: _, [] => rfl
  | n + 1, a :: l, b :: r => by
    rw [List.take_succ_cons, List.take_succ_cons, compareLex_cons, compareLex_cons,
      compareLex_cut n l r, Ordering.then_assoc]
    rfl

theorem length_of_compareLex : ∀ {l r : List α}, List.compareLex cmp l r = .eq → l.length = r.length
  | [], [], _ => rfl
  | [], _ :: _, h => by cases h
  | _ :: _, [], h => by cases h
  | a :: l, b :: r, h => by
    rw [compareLex_cons, Ordering.then_eq_eq] at h
    rw [List.length_cons, List.length_cons, length_of_compareLex h.2]

theorem chunks_nil (size fuel : Nat) : chunks size fuel ([] : List α) = [] := by
  cases fuel <;> rfl

theorem flatten_chunks {size : Nat} (hsize : 0 < size) : ∀ {fuel : Nat} {l : List α},
    l.length ≤ fuel → (chunks size fuel l).flatten = l
  | fuel, [], _ => by
    rw [chunks_nil]
    rfl
  | fuel + 1, a :: l, h => by
    have hrest : ((a :: l).drop size).length ≤ fuel := by
      rw [List.length_drop]
      omega
    rw [chunks, List.flatten_cons, flatten_chunks hsize hrest, List.take_append_drop]

theorem compare_drop {n : Nat} {l r : List α} (h : (l.take n).length = (r.take n).length) :
    compare (l.drop n).length (r.drop n).length = compare l.length r.length := by
  rw [List.length_take, List.length_take] at h
  rw [List.length_drop, List.length_drop, Nat.compare_eq_ite_lt, Nat.compare_eq_ite_lt]
  have hlt : l.length - n < r.length - n ↔ l.length < r.length := by omega
  have hgt : r.length - n < l.length - n ↔ r.length < l.length := by omega
  simp only [hlt, hgt]

/-- **Chunk by chunk, then lengths, is the order of words.** -/
theorem chunks_then_length {size : Nat} (hsize : 0 < size) : ∀ {n m : Nat} (l r : List α),
    l.length ≤ n → r.length ≤ m →
    (zipOrder (List.compareLex cmp) (chunks size n l) (chunks size m r)).then
      (compare l.length r.length) = List.compareLex cmp l r
  | n, m, [], r, _, _ => by
    rw [chunks_nil, ← zipOrder_then_length]
    rfl
  | n, m, a :: l, [], _, _ => by
    have hnone : zipOrder (List.compareLex cmp) (chunks size n (a :: l)) [] = .eq := by
      cases chunks size n (a :: l) <;> rfl
    rw [chunks_nil, hnone, ← zipOrder_then_length]
    rfl
  | n + 1, m + 1, a :: l, b :: r, hl, hr => by
    have hdropl : ((a :: l).drop size).length ≤ n := by
      rw [List.length_drop]
      omega
    have hdropr : ((b :: r).drop size).length ≤ m := by
      rw [List.length_drop]
      omega
    rw [compareLex_cut size (a :: l) (b :: r), ← chunks_then_length hsize _ _ hdropl hdropr,
      chunks, chunks, zipOrder, Ordering.then_assoc]
    cases hfirst : List.compareLex cmp ((a :: l).take size) ((b :: r).take size) with
    | lt => rfl
    | gt => rfl
    | eq => rw [compare_drop (length_of_compareLex hfirst)]

end Lithograph.Library
