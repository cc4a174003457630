/-
  File:      Lithograph/Library/Spelling.lean
  Subject:   Orders that are spelled out: values as words of numbers, in the order of words.

  Two words tell an order where they are in it whatever is written behind them.

  * **`preorder_of_spelled`**: what is spelled is a total preorder.
-/
import Lithograph.Library.Lexicographic

namespace Lithograph.Library

open Std

/-- A value written down. -/
abbrev Word := List Int

/-! ## 1. Words that tell an order -/

/-- The words are in the order, whatever is written behind them. -/
def Tells (order : Ordering) (left right : Word) : Prop :=
  ∀ l r : Word, compare (left ++ l) (right ++ r) = order.then (compare l r)

variable (x y : Int)

theorem compare_words (l r : Word) :
    compare (x :: l) (y :: r) = (compare x y).then (compare l r) := compareLex_cons x y l r

theorem tells_nil : Tells .eq [] [] := fun _ _ => rfl

variable {o : Ordering} {l r : Word}

theorem tells_append {p : Ordering} {l' r' : Word} (h : Tells o l r) (h' : Tells p l' r') :
    Tells (o.then p) (l ++ l') (r ++ r') := by
  intro u v
  rw [List.append_assoc, List.append_assoc, h, h', Ordering.then_assoc]

theorem tells_cons (h : Tells o l r) : Tells ((compare x y).then o) (x :: l) (y :: r) := by
  intro u v
  rw [List.cons_append, List.cons_append, compare_words, h, Ordering.then_assoc]

theorem tells_same (x : Int) (h : Tells o l r) : Tells o (x :: l) (x :: r) := by
  have hcons := tells_cons x x h
  rw [ReflOrd.compare_self] at hcons
  exact hcons

theorem tells_one : Tells (compare x y) [x] [y] := by
  have hcons := tells_cons x y tells_nil
  rw [Ordering.then_eq] at hcons
  exact hcons

theorem tells_decided (h : Tells o l r) (ho : o ≠ .eq) (l' r' : Word) :
    Tells o (l ++ l') (r ++ r') := by
  intro u v
  rw [List.append_assoc, List.append_assoc, h]
  cases o with
  | lt => rfl
  | eq => exact absurd rfl ho
  | gt => rfl

theorem tells_first {x y : Int} (hne : x ≠ y) (l r : Word) :
    Tells (compare x y) (x :: l) (y :: r) :=
  tells_decided (tells_one x y) (fun heq => hne (LawfulEqOrd.eq_of_compare heq)) l r

theorem tells_append_of {p : Ordering} {l' r' : Word} (h : Tells o l r)
    (h' : o = .eq → Tells p l' r') : Tells (o.then p) (l ++ l') (r ++ r') := by
  cases o with
  | eq => exact tells_append h (h' rfl)
  | lt =>
    show Tells .lt (l ++ l') (r ++ r')
    exact tells_decided h (by decide) l' r'
  | gt =>
    show Tells .gt (l ++ l') (r ++ r')
    exact tells_decided h (by decide) l' r'

theorem tells_cons_of (h : x = y → Tells o l r) : Tells ((compare x y).then o) (x :: l) (y :: r) :=
  tells_append_of (tells_one x y) fun heq => h (LawfulEqOrd.eq_of_compare heq)

theorem compare_of_tells (h : Tells o l r) : compare l r = o := by
  have hnil := h [] []
  rw [List.append_nil, List.append_nil, ReflOrd.compare_self, Ordering.then_eq] at hnil
  exact hnil

/-! ## 2. Lists -/

section Lists

variable {α : Type} {cmp : α → α → Ordering} {spell : α → Word}

/-- A list with a mark before each item and another at its end. -/
def spellList (spell : α → Word) : List α → Word
  | [] => [0]
  | a :: rest => 1 :: (spell a ++ spellList spell rest)

/-- **A list with its end tells the order of words.** -/
theorem tells_word : ∀ (l r : List α),
    (∀ a ∈ l, ∀ b ∈ r, Tells (cmp a b) (spell a) (spell b)) →
      Tells (List.compareLex cmp l r) (spellList spell l) (spellList spell r)
  | [], [], _ => tells_one 0 0
  | [], _ :: _, _ => tells_first (by decide) [] _
  | _ :: _, [], _ => tells_first (by decide) _ []
  | a :: l, b :: r, h => by
    rw [compareLex_cons]
    refine tells_same 1 (tells_append (h a (.head _) b (.head _)) ?_)
    exact tells_word l r fun x hx y hy =>
      h x (.tail _ hx) y (.tail _ hy)

/-- **Lists of one length need no marks.** -/
theorem tells_zip : ∀ {l r : List α}, l.length = r.length →
    (∀ a ∈ l, ∀ b ∈ r, Tells (cmp a b) (spell a) (spell b)) →
      Tells (zipOrder cmp l r) (l.flatMap spell) (r.flatMap spell)
  | [], [], _, _ => tells_nil
  | a :: l, b :: r, hlength, h => by
    refine tells_append (h a (.head _) b (.head _)) ?_
    exact tells_zip (Nat.succ.inj hlength) fun x hx y hy =>
      h x (.tail _ hx) y (.tail _ hy)

end Lists

/-! ## 3. Spelled orders -/

/-- A total preorder, given by its comparison. -/
structure TotalPreorder {α : Type} (cmp : α → α → Ordering) : Prop where
  refl : ∀ a, cmp a a = .eq
  reverse : ∀ a b, cmp b a = (cmp a b).swap
  trans : ∀ a b c, (cmp a b).isLE → (cmp b c).isLE → (cmp a c).isLE

/-- **The order of spelled values is a total preorder.** -/
theorem preorder_of_spelled {α : Type} {cmp : α → α → Ordering} (spell : α → Word)
    (h : ∀ a b, Tells (cmp a b) (spell a) (spell b)) : TotalPreorder cmp := by
  have hcmp : ∀ a b, cmp a b = compare (spell a) (spell b) := fun a b =>
    (compare_of_tells (h a b)).symm
  refine ⟨fun a => ?_, fun a b => ?_, fun a b c hab hbc => ?_⟩
  · rw [hcmp]
    exact ReflOrd.compare_self
  · rw [hcmp, hcmp]
    exact OrientedOrd.eq_swap
  · rw [hcmp] at hab hbc ⊢
    exact TransOrd.isLE_trans hab hbc

end Lithograph.Library
