/-
  File:      Lithograph/Query/Spill/NumberKey.lean
  Subject:   Numbers of one key are the numbers that are equal (`query/spill/codec.rs`).

  * **`floatKey_integer`**, **`floatKey_float`**: one key exactly for equal numbers, and NaN has the
    key of NaN.
-/
import Lithograph.Cypher.ReadBack
import Lithograph.Query.Expression.SortEquality
import Lithograph.Query.Spill.DistinctKey

namespace Lithograph.Query.Expression

open Library Storage Cypher

/-! ## 1. Bits -/

theorem hexDigit_inj {m n : Nat} (hm : m < 16) (hn : n < 16) (h : hexDigit m = hexDigit n) :
    m = n := by
  have hread := (hexDigit_spec hm).1
  rw [h, (hexDigit_spec hn).1] at hread
  exact (Except.ok.inj hread).symm

theorem hexFixed_inj : ∀ {width m n : Nat}, m < 16 ^ width → n < 16 ^ width →
    hexFixed width m = hexFixed width n → m = n
  | 0, m, n, hm, hn, _ => by omega
  | width + 1, m, n, hm, hn, h => by
    obtain ⟨hhigh, hlow⟩ := List.append_inj' h rfl
    have hdigit := hexDigit_inj (Nat.mod_lt _ (by omega)) (Nat.mod_lt _ (by omega))
      (List.singleton_inj.mp hlow)
    have hrest := hexFixed_inj (Nat.div_lt_of_lt_mul (by omega)) (Nat.div_lt_of_lt_mul (by omega))
      hhigh
    omega

variable {x y : F64} {n : Int}

theorem float_eq (h : x.bits.toNat = y.bits.toNat) : x = y := by
  exact congrArg F64.mk (UInt64.toNat_inj.mp h)

theorem float_eq_of_parts (hm : floatMagnitude x = floatMagnitude y)
    (hs : floatNegative x = floatNegative y) : x = y := by
  refine float_eq ?_
  have hx := x.bits.toNat_lt
  have hy := y.bits.toNat_lt
  unfold floatMagnitude at hm
  unfold floatNegative at hs
  rw [decide_eq_decide] at hs
  omega

theorem isFinite_iff (x : F64) : isFinite x = decide (floatMagnitude x < 0x7ff0000000000000) := by
  have hmask : magnitude x = floatMagnitude x := by
    unfold magnitude floatMagnitude
    exact Nat.and_two_pow_sub_one_eq_mod x.bits.toNat 63
  unfold isFinite
  rw [hmask]

/-! ## 2. Floats on the place of an integer -/

theorem integerFloatCmp_iff (hn : InI64 n) (x : F64) :
    integerFloatCmp n x = some .eq ↔ x.isNan = false ∧ integerUnits n = floatUnits x := by
  constructor
  · intro h
    refine ⟨?_, integerFloatCmp_units hn h⟩
    cases hnan : x.isNan with
    | false => rfl
    | true =>
      unfold integerFloatCmp at h
      rw [hnan] at h
      cases h
  · intro h
    obtain ⟨hnan, hunits⟩ := h
    have hsort := sortIntegerFloat_units hn x
    rw [hunits, Std.ReflOrd.compare_self] at hsort
    unfold sortIntegerFloat at hsort
    rw [hnan, if_neg Bool.false_ne_true] at hsort
    cases hcmp : integerFloatCmp n x with
    | some o =>
      rw [hcmp] at hsort
      rw [show o = .eq from hsort]
    | none =>
      unfold integerFloatCmp at hcmp
      rw [hnan, if_neg Bool.false_ne_true] at hcmp
      split at hcmp
      · cases hcmp
      split at hcmp
      · cases hcmp
      split at hcmp
      · cases hcmp
      split at hcmp
      · cases hcmp
      split at hcmp
      · split at hcmp
        · cases hcmp
        · split at hcmp <;> cases hcmp
      · cases hcmp

theorem whole_of_equal (h : integerFloatCmp n x = some .eq) :
    isFinite x = true ∧ floatHasFraction x = false ∧ inIntegerRange x = true ∧
      floatTrunc x = n := by
  unfold integerFloatCmp at h
  split at h
  · cases h
  split at h
  · cases h
  split at h
  · cases h
  split at h
  · cases h
  split at h
  · cases h
  rename_i _ _ _ hhigh hlow
  split at h
  · rename_i hwhole
    cases hfraction : floatHasFraction x with
    | true =>
      rw [hfraction] at h
      simp only [Bool.not_true, Bool.false_eq_true, if_false] at h
      split at h <;> cases h
    | false =>
      refine ⟨?_, rfl, ?_, (Std.LawfulEqOrd.eq_of_compare hwhole).symm⟩
      · rw [isFinite_iff, decide_eq_true_eq]
        unfold floatOrder at hhigh hlow
        split at hhigh <;> split at hlow <;> omega
      · unfold inIntegerRange
        rw [Bool.and_eq_true, decide_eq_true_eq, decide_eq_true_eq]
        omega
  · rename_i hne
    exact absurd (Option.some.inj h) hne

/-- **The key of a float.** -/
theorem floatKey_cases (x : F64) :
    (x.isNan = true ∧ floatDistinctKey x = "nan".toList) ∨
      (∃ n, InI64 n ∧ integerFloatCmp n x = some .eq ∧
        floatDistinctKey x = 'i' :: ':' :: integerText n) ∨
      (x.isNan = false ∧ (∀ n, integerFloatCmp n x ≠ some .eq) ∧
        floatDistinctKey x = 'f' :: ':' :: hexFixed 16 x.bits.toNat) := by
  unfold floatDistinctKey
  cases hnan : x.isNan with
  | true => exact .inl ⟨rfl, rfl⟩
  | false =>
    by_cases hwhole : (isFinite x && !floatHasFraction x && inIntegerRange x) = true
    · rw [if_pos hwhole]
      simp only [Bool.and_eq_true, Bool.not_eq_true'] at hwhole
      obtain ⟨⟨_, hfraction⟩, hrange⟩ := hwhole
      unfold inIntegerRange at hrange
      rw [Bool.and_eq_true, decide_eq_true_eq, decide_eq_true_eq] at hrange
      have hin : InI64 (floatTrunc x) := floatTrunc_inRange (by omega) (by omega)
      refine .inr (.inl ⟨floatTrunc x, hin, (integerFloatCmp_iff hin x).mpr ⟨hnan, ?_⟩, rfl⟩)
      obtain ⟨rest, hpos, _, hrest, hunits⟩ := floatUnits_parts hnan
      have hzero : rest = 0 := by
        have hnot : ¬ 0 < rest := fun hlt => by
          rw [hrest.mpr hlt] at hfraction
          cases hfraction
        omega
      rw [hunits, hzero, Int.add_zero, floatTrunc_eq]
      unfold integerUnits
      split
      · rw [Int.neg_mul]
      · rfl
    · rw [if_neg hwhole]
      refine .inr (.inr ⟨rfl, fun n h => hwhole ?_, rfl⟩)
      obtain ⟨hfinite, hfraction, hrange, _⟩ := whole_of_equal h
      rw [hfinite, hfraction, hrange]
      rfl

/-! ## 3. Keys of numbers -/

theorem natAbs_lt_of_inI64 (h : InI64 n) : n.natAbs < 10 ^ 20 := by
  unfold InI64 at h
  omega

theorem integerKey_inj {m : Int} (hm : InI64 m) (hn : InI64 n)
    (h : 'i' :: ':' :: integerText m = 'i' :: ':' :: integerText n) : m = n :=
  integerText_inj (natAbs_lt_of_inI64 hm) (natAbs_lt_of_inI64 hn)
    (List.cons.inj (List.cons.inj h).2).2

theorem floatKey_integer (hn : InI64 n) (x : F64) :
    'i' :: ':' :: integerText n = floatDistinctKey x ↔ integerFloatCmp n x = some .eq := by
  rcases floatKey_cases x with ⟨hnan, hkey⟩ | ⟨m, hm, hcmp, hkey⟩ | ⟨_, hnone, hkey⟩
  · rw [hkey, integerFloatCmp_iff hn, hnan]
    exact iff_of_false (fun h => absurd (List.cons.inj h).1 (by decide)) fun h => by cases h.1
  · rw [hkey]
    constructor
    · intro h
      rw [integerKey_inj hn hm h]
      exact hcmp
    · intro h
      rw [← (whole_of_equal h).2.2.2, (whole_of_equal hcmp).2.2.2]
  · rw [hkey]
    exact iff_of_false (fun h => absurd (List.cons.inj h).1 (by decide)) (hnone n)

theorem numericEqual_iff (x y : F64) : numericEqual x y = true ↔
    x.isNan = false ∧ y.isNan = false ∧ floatUnits x = floatUnits y := by
  have hsort := sortFloat_units x y
  unfold numericEqual
  cases hx : x.isNan with
  | true => simp
  | false =>
    cases hy : y.isNan with
    | true => simp
    | false =>
      unfold sortFloat partialNumberCmp at hsort
      rw [hx, hy] at hsort
      simp only [Bool.or_self, Bool.false_eq_true, if_false, Option.getD_some] at hsort ⊢
      rw [beq_iff_eq, ← Std.LawfulEqOrd.compare_eq_iff_eq, hsort, Std.LawfulEqOrd.compare_eq_iff_eq]
      simp

theorem eq_of_numericEqual (h : numericEqual x y = true)
    (hnone : ∀ n, integerFloatCmp n x ≠ some .eq) : x = y := by
  have hparts := (numericEqual_iff x y).mp h
  have hzero : floatMagnitude x ≠ 0 := by
    intro hz
    refine hnone 0 ((integerFloatCmp_iff (by unfold InI64; decide) x).mpr ⟨hparts.1, ?_⟩)
    rw [floatUnits_number hparts.1, hz, magnitudeUnits_zero]
    unfold integerUnits
    rw [Int.zero_mul]
    split <;> rfl
  unfold numericEqual at h
  rw [hparts.1, hparts.2.1] at h
  simp only [Bool.or_self, Bool.false_eq_true, if_false, beq_iff_eq] at h
  unfold floatOrder at h
  refine float_eq_of_parts ?_ ?_
  · split at h <;> split at h <;> omega
  · split at h <;> split at h
    · simp_all
    · omega
    · omega
    · simp_all

theorem floatKey_float (x y : F64) : floatDistinctKey x = floatDistinctKey y ↔
    ((x.isNan && y.isNan) || numericEqual x y) = true := by
  have hsame : ∀ {n : Int}, InI64 n → integerFloatCmp n x = some .eq →
      (integerFloatCmp n y = some .eq ↔ numericEqual x y = true) := by
    intro n hn hcmp
    obtain ⟨hnan, hunits⟩ := (integerFloatCmp_iff hn x).mp hcmp
    rw [integerFloatCmp_iff hn, numericEqual_iff, hunits]
    exact ⟨fun h => ⟨hnan, h⟩, fun h => h.2⟩
  rcases floatKey_cases x with ⟨hnan, hkey⟩ | ⟨m, hm, hcmp, hkey⟩ | ⟨hnan, hnone, hkey⟩
  · rcases floatKey_cases y with ⟨hnan', hkey'⟩ | ⟨n, hn, hcmp', hkey'⟩ | ⟨hnan', _, hkey'⟩
    · rw [hkey, hkey', hnan, hnan']
      exact iff_of_true rfl rfl
    · have hnan' := ((integerFloatCmp_iff hn y).mp hcmp').1
      rw [hkey, hkey', numericEqual, hnan, hnan']
      exact iff_of_false (fun h => absurd (List.cons.inj h).1 (by decide)) Bool.false_ne_true
    · rw [hkey, hkey', numericEqual, hnan, hnan']
      exact iff_of_false (fun h => absurd (List.cons.inj h).1 (by decide)) Bool.false_ne_true
  · have hnan := ((integerFloatCmp_iff hm x).mp hcmp).1
    rw [hkey, floatKey_integer hm, hsame hm hcmp, hnan, Bool.false_and, Bool.false_or]
  · rw [hnan, Bool.false_and, Bool.false_or]
    rcases floatKey_cases y with ⟨hnan', hkey'⟩ | ⟨n, hn, hcmp', hkey'⟩ | ⟨_, _, hkey'⟩
    · rw [hkey, hkey', numericEqual, hnan']
      exact iff_of_false (fun h => absurd (List.cons.inj h).1 (by decide)) (by simp)
    · rw [hkey, hkey']
      refine iff_of_false (fun h => absurd (List.cons.inj h).1 (by decide)) fun h => hnone n ?_
      rw [integerFloatCmp_iff hn]
      obtain ⟨_, _, hunits⟩ := (numericEqual_iff x y).mp h
      exact ⟨hnan, by rw [hunits, ((integerFloatCmp_iff hn y).mp hcmp').2]⟩
    · constructor
      · intro h
        have hbits : hexFixed 16 x.bits.toNat = hexFixed 16 y.bits.toNat := by
          rw [hkey, hkey'] at h
          exact (List.cons.inj (List.cons.inj h).2).2
        rw [float_eq (hexFixed_inj x.bits.toNat_lt y.bits.toNat_lt hbits)] at hnan ⊢
        exact (numericEqual_iff y y).mpr ⟨hnan, hnan, rfl⟩
      · intro h
        rw [eq_of_numericEqual h hnone]

/-! ## 4. Integers as floats -/

theorem scaled_bounds {m e : Nat} (he : e ≤ 52) (hlow : 2 ^ e ≤ m) (hhigh : m < 2 ^ (e + 1)) :
    2 ^ 52 ≤ m * 2 ^ (52 - e) ∧ m * 2 ^ (52 - e) < 2 ^ 53 := by
  have hscale : 2 ^ e * 2 ^ (52 - e) = 2 ^ 52 := by rw [← Nat.pow_add, Nat.add_sub_cancel' he]
  have hmul := Nat.mul_lt_mul_of_pos_right hhigh (Nat.two_pow_pos (52 - e))
  rw [Nat.pow_succ, Nat.mul_right_comm, hscale] at hmul
  exact ⟨hscale ▸ Nat.mul_le_mul_right _ hlow, hmul⟩

theorem roundedMagnitude_units {m : Nat} (h : m < 2 ^ 53) :
    roundedMagnitude m < 0x7ff0000000000000 ∧
      magnitudeUnits (roundedMagnitude m) = m * unitsInOne := by
  unfold roundedMagnitude
  by_cases hzero : m = 0
  · rw [if_pos hzero, hzero, magnitudeUnits_zero, Nat.zero_mul]
    exact ⟨by decide, rfl⟩
  have hlog : m.log2 < 53 := (Nat.log2_lt hzero).mpr h
  have hlow := Nat.log2_self_le hzero
  have hhigh : m < 2 ^ (m.log2 + 1) := (Nat.log2_lt hzero).mp (Nat.lt_succ_self _)
  rw [if_neg hzero, if_pos (by omega)]
  obtain ⟨hbelow, habove⟩ := scaled_bounds (Nat.le_of_lt_succ hlog) hlow hhigh
  generalize m.log2 = e at hlog hlow hhigh hbelow habove ⊢
  have hdiv : ((e + 1022) * 2 ^ 52 + m * 2 ^ (52 - e)) / 2 ^ 52 = e + 1023 := by omega
  have hmod : 2 ^ 52 + ((e + 1022) * 2 ^ 52 + m * 2 ^ (52 - e)) % 2 ^ 52 = m * 2 ^ (52 - e) := by
    omega
  have hexponent : 52 - e + (e + 1023 - 1) = unitExponent := by
    unfold unitExponent
    omega
  refine ⟨by omega, ?_⟩
  rw [magnitudeUnits_large (by omega), hdiv, hmod, Nat.mul_assoc, ← Nat.pow_add, hexponent]
  rfl

theorem integerAsFloat_parts {n : Int} (h : roundedMagnitude n.natAbs < 2 ^ 63) :
    floatMagnitude (integerAsFloat n) = roundedMagnitude n.natAbs ∧
      floatNegative (integerAsFloat n) = decide (n < 0) := by
  have hbits : (integerAsFloat n).bits.toNat =
      (if n < 0 then 2 ^ 63 else 0) + roundedMagnitude n.natAbs := by
    unfold integerAsFloat
    rw [UInt64.toNat_ofNat']
    split <;> omega
  unfold floatMagnitude floatNegative
  rw [hbits, decide_eq_decide]
  refine ⟨?_, ?_⟩ <;> split <;> omega

theorem integerAsFloat_equal (hlow : -jsSafeInteger ≤ n) (hhigh : n ≤ jsSafeInteger) :
    integerFloatCmp n (integerAsFloat n) = some .eq := by
  unfold jsSafeInteger at hlow hhigh
  obtain ⟨hfinite, hunits⟩ := @roundedMagnitude_units n.natAbs (by omega)
  obtain ⟨hmagnitude, hnegative⟩ := @integerAsFloat_parts n (by omega)
  have hnan : (integerAsFloat n).isNan = false := by
    rw [isNan_iff, hmagnitude, decide_eq_false_iff_not]
    omega
  refine (integerFloatCmp_iff (by unfold InI64; omega) _).mpr ⟨hnan, ?_⟩
  rw [floatUnits_number hnan, hmagnitude, hnegative, hunits]
  unfold integerUnits
  by_cases hneg : n < 0
  · rw [if_pos (decide_eq_true hneg), Int.natCast_mul, ← Int.neg_mul]
    congr 1
    omega
  · rw [if_neg (by rw [decide_eq_true_eq]; exact hneg), Int.natCast_mul]
    congr 1
    omega

theorem floatKey_asFloat {n : Int} (hlow : -jsSafeInteger ≤ n) (hhigh : n ≤ jsSafeInteger) :
    floatDistinctKey (integerAsFloat n) = 'i' :: ':' :: integerText n := by
  have hin : InI64 n := by
    unfold jsSafeInteger at hlow hhigh
    unfold InI64
    omega
  exact ((floatKey_integer hin _).mpr (integerAsFloat_equal hlow hhigh)).symm

end Lithograph.Query.Expression
