/-
  File:      Lithograph/Query/Expression/NumberOrder.lean
  Subject:   Integers and floats on one line (`cypher/value.rs`, `cypher/value_order.rs`).

  Counted in units of 2^-1074, numbers of both types are compared as integers are; NaN stands behind
  infinity.

  * `sortFloat_units`, **`sortIntegerFloat_units`**: the source compares units.
-/
import Lithograph.Query.Expression.CompareControl

namespace Lithograph.Query.Expression

open Library Storage Cypher

/-! ## 1. Floats in units -/

/-- The exponent of the smallest positive float, without its sign. -/
def unitExponent : Nat := 1074

/-- The units in one. -/
def unitsInOne : Nat := 2 ^ unitExponent

theorem unitsInOne_pos : 0 < unitsInOne := Nat.two_pow_pos unitExponent

/-- The absolute value of a float, in units; infinity goes on where the finite floats end. -/
def magnitudeUnits (m : Nat) : Nat :=
  if m / 2 ^ 52 = 0 then m % 2 ^ 52 else (2 ^ 52 + m % 2 ^ 52) * 2 ^ (m / 2 ^ 52 - 1)

/-- A float, in units. Every NaN is the first number behind infinity. -/
def floatUnits (x : F64) : Int :=
  if x.isNan then magnitudeUnits 0x7ff0000000000001
  else if floatNegative x then -(magnitudeUnits (floatMagnitude x))
  else magnitudeUnits (floatMagnitude x)

/-- An integer, in units. -/
def integerUnits (n : Int) : Int := n * unitsInOne

theorem magnitudeUnits_zero : magnitudeUnits 0 = 0 := rfl

variable {m : Nat} {x : F64}

theorem magnitudeUnits_small (h : m < 2 ^ 52) : magnitudeUnits m = m := by
  unfold magnitudeUnits
  rw [if_pos (Nat.div_eq_of_lt h), Nat.mod_eq_of_lt h]

theorem magnitudeUnits_large (h : 2 ^ 52 ≤ m) :
    magnitudeUnits m = (2 ^ 52 + m % 2 ^ 52) * 2 ^ (m / 2 ^ 52 - 1) := by
  unfold magnitudeUnits
  rw [if_neg]
  have hpos : 0 < m / 2 ^ 52 := Nat.div_pos h (Nat.two_pow_pos _)
  exact Nat.ne_of_gt hpos

theorem magnitudeUnits_bounds (h : 2 ^ 52 ≤ m) :
    2 ^ (m / 2 ^ 52 + 51) ≤ magnitudeUnits m ∧ magnitudeUnits m < 2 ^ (m / 2 ^ 52 + 52) := by
  rw [magnitudeUnits_large h]
  obtain ⟨e, he⟩ : ∃ e, m / 2 ^ 52 = e + 1 :=
    Nat.exists_eq_add_one_of_ne_zero (Nat.ne_of_gt (Nat.div_pos h (Nat.two_pow_pos _)))
  have hlow : 2 ^ (e + 1 + 51) = 2 ^ 52 * 2 ^ e := by
    rw [← Nat.pow_add, Nat.add_comm e 1, Nat.add_right_comm]
  have hhigh : 2 ^ (e + 1 + 52) = 2 ^ 53 * 2 ^ e := by
    rw [← Nat.pow_add, Nat.add_comm e 1, Nat.add_right_comm]
  rw [he, Nat.add_sub_cancel, hlow, hhigh]
  constructor
  · exact Nat.mul_le_mul_right _ (Nat.le_add_right _ _)
  · exact Nat.mul_lt_mul_of_pos_right (by omega) (Nat.two_pow_pos _)

theorem magnitudeUnits_lt {n : Nat} (h : m < n) : magnitudeUnits m < magnitudeUnits n := by
  rcases Nat.lt_or_ge n (2 ^ 52) with hn | hn
  · rw [magnitudeUnits_small (h.trans hn), magnitudeUnits_small hn]
    exact h
  rcases Nat.lt_or_ge m (2 ^ 52) with hm | hm
  · have hpow : (2 : Nat) ^ 52 ≤ 2 ^ (n / 2 ^ 52 + 51) :=
      Nat.pow_le_pow_right (by decide) (by omega)
    rw [magnitudeUnits_small hm]
    exact (hm.trans_le hpow).trans_le (magnitudeUnits_bounds hn).1
  · have hdiv : m / 2 ^ 52 ≤ n / 2 ^ 52 := Nat.div_le_div_right (Nat.le_of_lt h)
    rcases Nat.lt_or_eq_of_le hdiv with hlt | heq
    · have hpow : 2 ^ (m / 2 ^ 52 + 52) ≤ 2 ^ (n / 2 ^ 52 + 51) :=
        Nat.pow_le_pow_right (by decide) (by omega)
      exact ((magnitudeUnits_bounds hm).2.trans_le hpow).trans_le (magnitudeUnits_bounds hn).1
    · rw [magnitudeUnits_large hm, magnitudeUnits_large hn, heq]
      exact Nat.mul_lt_mul_of_pos_right (by omega) (Nat.two_pow_pos _)

theorem magnitudeUnits_lt_iff {m n : Nat} : magnitudeUnits m < magnitudeUnits n ↔ m < n := by
  constructor
  · intro h
    rcases Nat.lt_or_ge m n with hlt | hge
    · exact hlt
    · rcases Nat.lt_or_eq_of_le hge with hgt | heq
      · exact absurd h (Nat.lt_asymm (magnitudeUnits_lt hgt))
      · rw [heq] at h
        exact absurd h (Nat.lt_irrefl _)
  · exact magnitudeUnits_lt

theorem compare_congr {a b c d : Int} (hlt : a < b ↔ c < d) (hgt : b < a ↔ d < c) :
    compare a b = compare c d := by
  rw [Int.compare_eq_ite_lt, Int.compare_eq_ite_lt]
  simp only [hlt, hgt]

theorem compare_reversed {a b c d : Int} (hlt : a < b ↔ d < c) (hgt : b < a ↔ c < d) :
    compare a b = (compare c d).swap := by
  rw [compare_congr hlt hgt]
  exact Std.OrientedOrd.eq_swap

theorem floatMagnitude_le (h : x.isNan = false) : floatMagnitude x ≤ 0x7ff0000000000000 := by
  rw [isNan_iff, decide_eq_false_iff_not] at h
  exact Nat.not_lt.mp h

theorem floatUnits_nan (h : x.isNan = true) : floatUnits x = magnitudeUnits 0x7ff0000000000001 := by
  unfold floatUnits
  rw [if_pos h]

theorem floatUnits_number (h : x.isNan = false) : floatUnits x =
    if floatNegative x then -(magnitudeUnits (floatMagnitude x) : Int)
    else (magnitudeUnits (floatMagnitude x) : Int) := by
  unfold floatUnits
  rw [if_neg (by rw [h]; exact Bool.false_ne_true)]

theorem floatUnits_lt_nan (h : x.isNan = false) :
    floatUnits x < magnitudeUnits 0x7ff0000000000001 := by
  have hle := floatMagnitude_le h
  have hlt : magnitudeUnits (floatMagnitude x) < magnitudeUnits 0x7ff0000000000001 :=
    magnitudeUnits_lt (by omega)
  rw [floatUnits_number h]
  generalize magnitudeUnits (floatMagnitude x) = u at hlt ⊢
  split <;> omega

theorem compare_floatOrder {y : F64} (hx : x.isNan = false) (hy : y.isNan = false) :
    compare (floatOrder x) (floatOrder y) = compare (floatUnits x) (floatUnits y) := by
  have hxy := magnitudeUnits_lt_iff (m := floatMagnitude x) (n := floatMagnitude y)
  have hyx := magnitudeUnits_lt_iff (m := floatMagnitude y) (n := floatMagnitude x)
  have hx0 := magnitudeUnits_lt_iff (m := 0) (n := floatMagnitude x)
  have hy0 := magnitudeUnits_lt_iff (m := 0) (n := floatMagnitude y)
  rw [magnitudeUnits_zero] at hx0 hy0
  rw [floatUnits_number hx, floatUnits_number hy]
  unfold floatOrder
  generalize magnitudeUnits (floatMagnitude y) = v at hxy hyx hy0 ⊢
  refine compare_congr ?_ ?_
  · split <;> split <;> omega
  · split <;> split <;> omega

/-- **Floats are sorted by their units.** -/
theorem sortFloat_units (x y : F64) : sortFloat x y = compare (floatUnits x) (floatUnits y) := by
  unfold sortFloat
  cases hx : x.isNan with
  | true =>
    rw [floatUnits_nan hx]
    cases hy : y.isNan with
    | true =>
      rw [floatUnits_nan hy]
      exact Std.ReflOrd.compare_self.symm
    | false =>
      rw [Int.compare_eq_ite_lt, if_neg (Int.lt_asymm (floatUnits_lt_nan hy)),
        if_pos (floatUnits_lt_nan hy)]
  | false =>
    cases hy : y.isNan with
    | true =>
      rw [floatUnits_nan hy, Int.compare_eq_ite_lt, if_pos (floatUnits_lt_nan hx)]
    | false =>
      rw [← compare_floatOrder hx hy]
      simp [partialNumberCmp, hx, hy]

/-! ## 2. Integers and floats -/

theorem magnitudeUnits_parts (x : F64) : magnitudeUnits (floatMagnitude x) =
    (floatParts x).1 * 2 ^ ((floatParts x).2 + unitExponent).toNat := by
  unfold magnitudeUnits floatParts
  generalize floatMagnitude x / 2 ^ 52 = exponent
  by_cases hzero : exponent = 0
  · rw [if_pos hzero, if_pos hzero]
    have hexp : ((-1074 : Int) + unitExponent).toNat = 0 := rfl
    rw [hexp, Nat.pow_zero, Nat.mul_one]
  · rw [if_neg hzero, if_neg hzero]
    congr 2
    unfold unitExponent
    simp only
    omega

theorem floatParts_exponent (x : F64) : -(unitExponent : Int) ≤ (floatParts x).2 := by
  unfold floatParts unitExponent
  simp only
  split <;> simp only <;> omega

/-- The whole part of the absolute value of a finite float. -/
def floatWhole (x : F64) : Nat :=
  if 0 ≤ (floatParts x).2 then (floatParts x).1 * 2 ^ (floatParts x).2.toNat
  else (floatParts x).1 / 2 ^ (-(floatParts x).2).toNat

theorem floatTrunc_eq (x : F64) :
    floatTrunc x = if floatNegative x then -(floatWhole x : Int) else (floatWhole x : Int) := rfl

/-- **A float is its whole part and less than one more.** -/
theorem floatWhole_units (x : F64) : ∃ rest,
    magnitudeUnits (floatMagnitude x) = floatWhole x * unitsInOne + rest ∧ rest < unitsInOne ∧
      (floatHasFraction x = true ↔ 0 < rest) := by
  have hlow := floatParts_exponent x
  rw [magnitudeUnits_parts]
  unfold floatWhole floatHasFraction unitsInOne
  simp only
  generalize (floatParts x).1 = significand
  generalize (floatParts x).2 = exponent at hlow ⊢
  by_cases hpos : 0 ≤ exponent
  · refine ⟨0, ?_, Nat.two_pow_pos _, ?_⟩
    · rw [if_pos hpos, Nat.add_zero, Nat.mul_assoc, ← Nat.pow_add]
      congr 2
      omega
    · have hnot : ¬ exponent < 0 := Int.not_lt.mpr hpos
      simp [hnot]
  · -- the exponent splits one into the part below the point and the part above it
    have hsum : (-exponent).toNat + (exponent + unitExponent).toNat = unitExponent := by omega
    have hunit :
        2 ^ unitExponent = 2 ^ (-exponent).toNat * 2 ^ (exponent + unitExponent).toNat := by
      rw [← Nat.pow_add, hsum]
    rw [if_neg hpos, hunit]
    generalize (exponent + unitExponent).toNat = below
    have hmod : significand % 2 ^ (-exponent).toNat < 2 ^ (-exponent).toNat :=
      Nat.mod_lt _ (Nat.two_pow_pos _)
    have hdiv := Nat.div_add_mod significand (2 ^ (-exponent).toNat)
    refine ⟨significand % 2 ^ (-exponent).toNat * 2 ^ below, ?_, ?_, ?_⟩
    · rw [← Nat.mul_assoc, ← Nat.add_mul, Nat.mul_comm (significand / _), hdiv]
    · exact Nat.mul_lt_mul_of_pos_right hmod (Nat.two_pow_pos _)
    · have hneg : exponent < 0 := Int.not_le.mp hpos
      simp only [hneg, decide_true, Bool.true_and, bne_iff_ne, ne_eq]
      rw [Nat.mul_pos_iff_of_pos_right (Nat.two_pow_pos _), Nat.pos_iff_ne_zero]

/-- The whole parts decide, then the rest. -/
theorem compare_whole {n whole rest one : Int} (hrest : 0 ≤ rest) (hone : rest < one) :
    compare (n * one) (whole * one + rest) =
      (compare n whole).then (if 0 < rest then .lt else .eq) := by
  have hpos : 0 < one := Int.lt_of_le_of_lt hrest hone
  rcases Int.lt_trichotomy n whole with hlt | heq | hgt
  · have hstep : (n + 1) * one ≤ whole * one := Int.mul_le_mul_of_nonneg_right hlt (Int.le_of_lt hpos)
    rw [Int.add_mul, Int.one_mul] at hstep
    have hless : n * one < whole * one + rest := by omega
    rw [compare_lt_iff_lt.mpr hless, compare_lt_iff_lt.mpr hlt]
    rfl
  · rw [heq, Std.ReflOrd.compare_self, Ordering.eq_then]
    by_cases hzero : 0 < rest
    · have hless : whole * one < whole * one + rest := by omega
      rw [if_pos hzero, compare_lt_iff_lt.mpr hless]
    · have hnone : whole * one = whole * one + rest := by omega
      rw [if_neg hzero, ← hnone, Std.ReflOrd.compare_self]
  · have hstep : (whole + 1) * one ≤ n * one := Int.mul_le_mul_of_nonneg_right hgt (Int.le_of_lt hpos)
    rw [Int.add_mul, Int.one_mul] at hstep
    have hmore : whole * one + rest < n * one := by omega
    rw [compare_gt_iff_gt.mpr hmore, compare_gt_iff_gt.mpr hgt]
    rfl

theorem compare_whole_neg {n whole rest one : Int} (hrest : 0 ≤ rest) (hone : rest < one) :
    compare (n * one) (-(whole * one + rest)) =
      (compare n (-whole)).then (if 0 < rest then .gt else .eq) := by
  have hswap : compare (-n * one) (whole * one + rest) =
      (compare (-n) whole).then (if 0 < rest then .lt else .eq) := compare_whole hrest hone
  have hleft : compare (n * one) (-(whole * one + rest)) =
      (compare (-n * one) (whole * one + rest)).swap := by
    refine compare_reversed ?_ ?_
    · rw [Int.neg_mul]
      omega
    · rw [Int.neg_mul]
      omega
  have hright : compare n (-whole) = (compare (-n) whole).swap :=
    compare_reversed (by omega) (by omega)
  rw [hleft, hswap, hright]
  cases compare (-n) whole <;> split <;> rfl

/-- An integer of 64 bits. -/
def InI64 (n : Int) : Prop := -(2 ^ 63) ≤ n ∧ n < 2 ^ 63

theorem magnitudeUnits_i64 : (magnitudeUnits 0x43e0000000000000 : Int) = 2 ^ 63 * unitsInOne := by
  have hnat : magnitudeUnits 0x43e0000000000000 = 2 ^ 63 * unitsInOne := by
    unfold magnitudeUnits unitsInOne
    have hexp : (0x43e0000000000000 : Nat) / 2 ^ 52 - 1 = 11 + unitExponent := rfl
    have hones : (2 ^ 52 + 0x43e0000000000000 % 2 ^ 52) * 2 ^ 11 = 2 ^ 63 := rfl
    rw [if_neg (by decide), hexp, Nat.pow_add, ← Nat.mul_assoc, hones]
  rw [hnat, Int.natCast_mul]
  rfl

theorem floatUnits_parts (h : x.isNan = false) : ∃ rest : Int, 0 ≤ rest ∧
    rest < unitsInOne ∧ (floatHasFraction x = true ↔ 0 < rest) ∧
      floatUnits x = if floatNegative x then -(floatWhole x * unitsInOne + rest)
        else floatWhole x * unitsInOne + rest := by
  obtain ⟨rest, hunits, hrest, hfraction⟩ := floatWhole_units x
  refine ⟨rest, Int.natCast_nonneg rest, Int.ofNat_lt.mpr hrest,
    hfraction.trans Int.natCast_pos.symm, ?_⟩
  rw [floatUnits_number h, hunits, Int.natCast_add, Int.natCast_mul]

theorem floatUnits_ge (h : x.isNan = false) (hbits : 0x43e0000000000000 ≤ floatOrder x) :
    2 ^ 63 * (unitsInOne : Int) ≤ floatUnits x := by
  rw [← magnitudeUnits_i64, floatUnits_number h]
  unfold floatOrder at hbits
  by_cases hneg : floatNegative x = true
  · rw [if_pos hneg] at hbits
    omega
  · rw [if_neg hneg] at hbits ⊢
    have hle : ¬ magnitudeUnits (floatMagnitude x) < magnitudeUnits 0x43e0000000000000 := by
      rw [magnitudeUnits_lt_iff]
      omega
    omega

theorem floatUnits_lt (h : x.isNan = false) (hbits : floatOrder x < -0x43e0000000000000) :
    floatUnits x < -(2 ^ 63 * (unitsInOne : Int)) := by
  rw [← magnitudeUnits_i64, floatUnits_number h]
  unfold floatOrder at hbits
  by_cases hneg : floatNegative x = true
  · rw [if_pos hneg] at hbits ⊢
    have hlt : magnitudeUnits 0x43e0000000000000 < magnitudeUnits (floatMagnitude x) := by
      rw [magnitudeUnits_lt_iff]
      omega
    omega
  · rw [if_neg hneg] at hbits
    omega

/-- **The conversion is made only where the number fits.** -/
theorem floatTrunc_inRange (hhigh : ¬ 0x43e0000000000000 ≤ floatOrder x)
    (hlow : ¬ floatOrder x < -0x43e0000000000000) : InI64 (floatTrunc x) := by
  obtain ⟨rest, hunits, hrest, _⟩ := floatWhole_units x
  have hones : magnitudeUnits 0x43e0000000000000 = 2 ^ 63 * unitsInOne := by
    have hint := magnitudeUnits_i64
    have hcast : ((2 : Int) ^ 63 * unitsInOne) = ((2 ^ 63 * unitsInOne : Nat) : Int) := by
      rw [Int.natCast_mul]
      rfl
    rw [hcast] at hint
    exact Int.ofNat_inj.mp hint
  have hpos := unitsInOne_pos
  unfold InI64
  rw [floatTrunc_eq]
  unfold floatOrder at hhigh hlow
  by_cases hneg : floatNegative x = true
  · rw [if_pos hneg] at hlow hhigh ⊢
    have hle : ¬ magnitudeUnits 0x43e0000000000000 < magnitudeUnits (floatMagnitude x) := by
      rw [magnitudeUnits_lt_iff]
      omega
    have hwhole : floatWhole x ≤ 2 ^ 63 := by
      refine Nat.le_of_mul_le_mul_right ?_ hpos
      omega
    omega
  · rw [if_neg hneg] at hlow hhigh ⊢
    have hlt : magnitudeUnits (floatMagnitude x) < magnitudeUnits 0x43e0000000000000 := by
      rw [magnitudeUnits_lt_iff]
      omega
    have hwhole : floatWhole x < 2 ^ 63 := by
      refine Nat.lt_of_mul_lt_mul_right (a := unitsInOne) ?_
      omega
    omega

theorem sortIntegerFloat_units {n : Int} (hn : InI64 n) (x : F64) :
    sortIntegerFloat n x = compare (integerUnits n) (floatUnits x) := by
  have hpos : (0 : Int) < unitsInOne := Int.natCast_pos.mpr unitsInOne_pos
  have hup : n * unitsInOne < 2 ^ 63 * unitsInOne := Int.mul_lt_mul_of_pos_right hn.2 hpos
  have hdown : -(2 ^ 63) * (unitsInOne : Int) ≤ n * unitsInOne :=
    Int.mul_le_mul_of_nonneg_right hn.1 (Int.le_of_lt hpos)
  unfold sortIntegerFloat integerUnits
  cases hnan : x.isNan with
  | true =>
    have hfar : magnitudeUnits 0x43e0000000000000 < magnitudeUnits 0x7ff0000000000001 :=
      magnitudeUnits_lt (by decide)
    have hbound := magnitudeUnits_i64
    have hless : n * unitsInOne < floatUnits x := by
      rw [floatUnits_nan hnan]
      omega
    rw [compare_lt_iff_lt.mpr hless, if_pos rfl]
  | false =>
    unfold integerFloatCmp
    rw [hnan, if_neg Bool.false_ne_true, if_neg Bool.false_ne_true]
    by_cases hhigh : 0x43e0000000000000 ≤ floatOrder x
    · have hge := floatUnits_ge hnan hhigh
      have hless : n * unitsInOne < floatUnits x := by omega
      have hfinite : floatOrder x ≠ -0x7ff0000000000000 := by omega
      rw [compare_lt_iff_lt.mpr hless]
      simp only [hfinite, hhigh, if_true, if_false, ite_self, Option.getD_some]
    by_cases hlow : floatOrder x < -0x43e0000000000000
    · have hlt := floatUnits_lt hnan hlow
      have hmore : floatUnits x < n * unitsInOne := by omega
      have hfinite : floatOrder x ≠ 0x7ff0000000000000 := by omega
      rw [compare_gt_iff_gt.mpr hmore]
      simp only [hfinite, hhigh, hlow, if_true, if_false, ite_self, Option.getD_some]
    · -- the float is within the integers: its whole part decides, then what is behind the point
      obtain ⟨rest, hrest, hone, hfraction, hunits⟩ := floatUnits_parts hnan
      rw [if_neg (by omega), if_neg (by omega), if_neg hhigh, if_neg hlow, hunits, floatTrunc_eq]
      by_cases hneg : floatNegative x = true
      · simp only [hneg, if_true]
        rw [compare_whole_neg hrest hone]
        cases compare n (-(floatWhole x : Int)) with
        | lt => rfl
        | gt => rfl
        | eq => cases hfrac : floatHasFraction x with
          | true =>
            rw [if_pos (hfraction.mp hfrac)]
            rfl
          | false =>
            have hnone : ¬ 0 < rest := fun hlt =>
              Bool.false_ne_true (hfrac.symm.trans (hfraction.mpr hlt))
            rw [if_neg hnone]
            rfl
      · simp only [hneg, if_false, Bool.false_eq_true]
        rw [compare_whole hrest hone]
        cases compare n (floatWhole x : Int) with
        | lt => rfl
        | gt => rfl
        | eq => cases hfrac : floatHasFraction x with
          | true =>
            rw [if_pos (hfraction.mp hfrac)]
            rfl
          | false =>
            have hnone : ¬ 0 < rest := fun hlt =>
              Bool.false_ne_true (hfrac.symm.trans (hfraction.mpr hlt))
            rw [if_neg hnone]
            rfl

end Lithograph.Query.Expression
