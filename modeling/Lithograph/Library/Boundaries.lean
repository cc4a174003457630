/-
  File:      Lithograph/Library/Boundaries.lean
  Subject:   Ascending boundaries over the integers, and rounding down to them.

  * **`isGreatest_between`**: rounding down is to the greatest boundary that is not after.
-/
import Mathlib.Data.Int.ConditionallyCompleteOrder
import Mathlib.Order.Monotone.Basic
import Mathlib.Order.Bounds.Basic
import Mathlib.Data.Int.LeastGreatest
import Mathlib.Data.Int.SuccPred
import Mathlib.Order.SuccPred.Archimedean

namespace Lithograph.Library

/-- The integer lies from one boundary up to the next. -/
def LiesBetween (f : Int → Int) (n x : Int) : Prop := f n ≤ x ∧ x < f (n + 1)

/-- The boundaries. -/
def Boundary (f : Int → Int) (b : Int) : Prop := ∃ n, f n = b

variable {n x k q p : Int}

section

variable {f : Int → Int} (hf : StrictMono f)
include hf

theorem between_self (n : Int) : LiesBetween f n (f n) := ⟨le_refl _, hf (Int.lt_succ n)⟩

theorem LiesBetween.index_le {m y : Int} (hn : LiesBetween f n x) (hm : LiesBetween f m y)
    (h : x ≤ y) : n ≤ m := by
  by_contra hlt
  have hle : f (m + 1) ≤ f n := hf.monotone (by omega)
  have hstart := hn.1
  have hend := hm.2
  omega

theorem LiesBetween.unique {n m x : Int} (hn : LiesBetween f n x) (hm : LiesBetween f m x) :
    n = m :=
  le_antisymm (hn.index_le hf hm (le_refl x)) (hm.index_le hf hn (le_refl x))

theorem add_le_of_strictMono (n : Int) : ∀ k : Nat, f n + k ≤ f (n + k)
  | 0 => by simp
  | k + 1 => by
    have ih := add_le_of_strictMono n k
    have hstep : f (n + k) < f (n + (k + 1 : Nat)) := hf (by omega)
    omega

theorem exists_between (x : Int) : ∃ n, LiesBetween f n x := by
  have hbound : ∃ b, ∀ n, f n ≤ x → n ≤ b := by
    refine ⟨(x - f 0).natAbs, fun n hn => ?_⟩
    obtain hneg | hpos := Int.lt_or_le n 0
    · omega
    · have hle := add_le_of_strictMono hf 0 n.toNat
      rw [Int.zero_add, Int.toNat_of_nonneg hpos] at hle
      omega
  have hsome : ∃ n, f n ≤ x := by
    refine ⟨-(x - f 0).natAbs, ?_⟩
    have hle := add_le_of_strictMono hf (-(x - f 0).natAbs) (x - f 0).natAbs
    rw [Int.add_left_neg] at hle
    omega
  obtain ⟨n, hn, hmax⟩ := Int.exists_greatest_of_bdd hbound hsome
  refine ⟨n, hn, ?_⟩
  by_contra hle
  have hlater := hmax (n + 1) (by omega)
  omega

theorem strictMono_blocks (hk : 0 < k) : StrictMono fun n => f (k * n) :=
  hf.comp fun _ _ h => Int.mul_lt_mul_of_pos_left h hk

theorem between_blocks (hk : 0 < k) (h : LiesBetween f n x) :
    LiesBetween (fun n => f (k * n)) (n / k) x := by
  have hlow : k * (n / k) ≤ n := Int.mul_ediv_self_le (by omega)
  have hhigh : n + 1 ≤ k * (n / k + 1) := by
    have hlt : n < k * (n / k) + k := Int.lt_mul_ediv_self_add hk
    rw [Int.mul_add, Int.mul_one]
    omega
  have hstart := hf.monotone hlow
  have hend := hf.monotone hhigh
  exact ⟨hstart.trans h.1, lt_of_lt_of_le h.2 hend⟩

/-- **The boundary below is the greatest that is not after.** -/
theorem isGreatest_between (h : LiesBetween f n x) :
    IsGreatest {b | Boundary f b ∧ b ≤ x} (f n) := by
  refine ⟨⟨⟨n, rfl⟩, h.1⟩, ?_⟩
  intro b hb
  obtain ⟨⟨m, rfl⟩, hle⟩ := hb
  exact hf.monotone ((between_self hf m).index_le hf h hle)

end

theorem strictMono_multiples (hq : 0 < q) : StrictMono fun n : Int => n * q :=
  fun _ _ h => Int.mul_lt_mul_of_pos_right h hq

theorem between_multiples (hq : 0 < q) (x : Int) : LiesBetween (fun n => n * q) (x / q) x := by
  have hlow := Int.ediv_mul_le x (ne_of_gt hq)
  have hhigh := Int.lt_ediv_add_one_mul_self x hq
  exact ⟨hlow, hhigh⟩

/-- The multiples start anew at every multiple. -/
theorem multiple_below_add (hq : 0 < q) (h : p % q = 0) (x r : Int) :
    (x * p + r) / q * q = x * p + r / q * q := by
  obtain ⟨k, rfl⟩ := Int.dvd_of_emod_eq_zero h
  have hmultiple : x * (q * k) = x * k * q := by rw [Int.mul_comm q, Int.mul_assoc]
  rw [hmultiple, Int.add_comm, Int.add_mul_ediv_right _ _ (ne_of_gt hq), Int.add_mul, Int.add_comm]

theorem strictMono_scaled {f : Int → Int} (hf : StrictMono f) (hp : 0 < p) :
    StrictMono fun n => f n * p := (strictMono_multiples hp).comp hf

theorem between_scaled {f : Int → Int} {r : Int} (h : LiesBetween f n x) (hr : 0 ≤ r ∧ r < p) :
    LiesBetween (fun n => f n * p) n (x * p + r) := by
  have hpos : 0 ≤ p := by omega
  have hlow := Int.mul_le_mul_of_nonneg_right h.1 hpos
  have hhigh := Int.mul_le_mul_of_nonneg_right (Int.add_one_le_of_lt h.2) hpos
  rw [Int.add_mul, Int.one_mul] at hhigh
  constructor
  · show f n * p ≤ x * p + r
    omega
  · show x * p + r < f (n + 1) * p
    omega

/-- The most steps from `reach 0` in the direction of the target that do not pass it. -/
def Most (reach : Int → Int) (target k : Int) : Prop :=
  (reach 0 ≤ target → IsGreatest {n | 0 ≤ n ∧ reach n ≤ target} k) ∧
    (target ≤ reach 0 → IsLeast {n | n ≤ 0 ∧ target ≤ reach n} k)

section

variable {reach : Int → Int} (hreach : StrictMono reach)
include hreach

theorem most_forward {target : Int} (hk : 0 ≤ k) (hle : reach k ≤ target)
    (hlt : target < reach (k + 1)) : Most reach target k := by
  constructor
  · intro _
    refine ⟨⟨hk, hle⟩, fun n hn => ?_⟩
    have hn := hreach.lt_iff_lt.mp (lt_of_le_of_lt hn.2 hlt)
    omega
  · intro hback
    have hzero := hreach.le_iff_le.mp (hle.trans hback)
    obtain rfl : k = 0 := by omega
    exact ⟨⟨le_refl 0, hback⟩, fun n hn => hreach.le_iff_le.mp (hle.trans hn.2)⟩

theorem most_backward {target : Int} (hk : k ≤ 0) (hle : target ≤ reach k)
    (hlt : reach (k - 1) < target) : Most reach target k := by
  constructor
  · intro hforth
    have hzero := hreach.le_iff_le.mp (hforth.trans hle)
    obtain rfl : k = 0 := by omega
    exact ⟨⟨le_refl 0, hforth⟩, fun n hn => hreach.le_iff_le.mp (hn.2.trans hle)⟩
  · intro _
    refine ⟨⟨hk, hle⟩, fun n hn => ?_⟩
    have hn := hreach.lt_iff_lt.mp (lt_of_lt_of_le hlt hn.2)
    omega

end

end Lithograph.Library
