/-
  File:      Lithograph/Library/Numeral.lean
  Subject:   Lists cut at separators, and decimal numerals.
-/
import Mathlib.Algebra.Order.Ring.Int
import Mathlib.Data.List.Basic
import Mathlib.Data.List.DropRight

namespace Lithograph.Library

/-! ## 1. Cutting at separators -/

section Split

variable {α : Type} [DecidableEq α]

/-- The list before and after the first separator. -/
def splitOnce (sep : α) : List α → Option (List α × List α)
  | [] => none
  | a :: rest =>
    if a = sep then some ([], rest)
    else (splitOnce sep rest).map fun parts => (a :: parts.1, parts.2)

/-- The list before and after the last separator. -/
def rsplitOnce (sep : α) (l : List α) : Option (List α × List α) :=
  (splitOnce sep l.reverse).map fun parts => (parts.2.reverse, parts.1.reverse)

/-- The parts between the separators. -/
def splitAll (sep : α) : List α → List (List α)
  | [] => [[]]
  | a :: rest =>
    if a = sep then [] :: splitAll sep rest
    else
      match splitAll sep rest with
      | [] => [[a]]
      | first :: others => (a :: first) :: others

theorem splitOnce_append {sep : α} : ∀ {a b : List α}, sep ∉ a →
    splitOnce sep (a ++ sep :: b) = some (a, b)
  | [], b, _ => by simp [splitOnce]
  | x :: a, b, h => by
    simp only [List.mem_cons, not_or] at h
    simp [splitOnce, Ne.symm h.1, splitOnce_append h.2]

theorem splitOnce_none {sep : α} : ∀ {a : List α}, sep ∉ a → splitOnce sep a = none
  | [], _ => rfl
  | x :: a, h => by
    simp only [List.mem_cons, not_or] at h
    simp [splitOnce, Ne.symm h.1, splitOnce_none h.2]

theorem rsplitOnce_append {sep : α} {a b : List α} (h : sep ∉ b) :
    rsplitOnce sep (a ++ sep :: b) = some (a, b) := by
  unfold rsplitOnce
  have hrev : (a ++ sep :: b).reverse = b.reverse ++ sep :: a.reverse := by simp
  rw [hrev, splitOnce_append (by simpa using h)]
  simp

theorem splitAll_single {sep : α} : ∀ {a : List α}, sep ∉ a → splitAll sep a = [a]
  | [], _ => rfl
  | x :: a, h => by
    simp only [List.mem_cons, not_or] at h
    simp [splitAll, Ne.symm h.1, splitAll_single h.2]

theorem splitAll_append {sep : α} : ∀ {a b : List α}, sep ∉ a →
    splitAll sep (a ++ sep :: b) = a :: splitAll sep b
  | [], b, _ => by simp [splitAll]
  | x :: a, b, h => by
    simp only [List.mem_cons, not_or] at h
    simp [splitAll, Ne.symm h.1, splitAll_append h.2]

end Split

/-! ## 2. Decimal numerals -/

/-- The character of a digit. -/
def digitChar (d : Nat) : Char := Char.ofNat (48 + d)

/-- `is_ascii_digit`. -/
def isDigit (c : Char) : Bool := 48 ≤ c.toNat && c.toNat ≤ 57

def digitValue (c : Char) : Nat := c.toNat - 48

/-- The `width` low digits of a number. -/
def fixedDigits : Nat → Nat → List Char
  | 0, _ => []
  | width + 1, n => fixedDigits width (n / 10) ++ [digitChar (n % 10)]

/-- The number the digits spell. -/
def number (digits : List Char) : Nat :=
  digits.foldl (fun n c => n * 10 + digitValue c) 0

/-- A number of at most twenty digits, as many as 64 bits need, without leading zeros. -/
def decimal (n : Nat) : List Char :=
  match (fixedDigits 20 n).dropWhile (· == '0') with
  | [] => ['0']
  | digits => digits

/-- `{:0width}`: filled with zeros up to the width, longer where the number needs it. -/
def pad (width n : Nat) : List Char :=
  if n < 10 ^ width then fixedDigits width n else decimal n

variable {width n d : Nat} {c sep : Char}

theorem pad_of_lt (h : n < 10 ^ width) : pad width n = fixedDigits width n :=
  if_pos h

theorem digitChar_toNat (h : d < 10) : (digitChar d).toNat = 48 + d := by
  have : d = 0 ∨ d = 1 ∨ d = 2 ∨ d = 3 ∨ d = 4 ∨ d = 5 ∨ d = 6 ∨ d = 7 ∨ d = 8 ∨ d = 9 := by omega
  rcases this with rfl | rfl | rfl | rfl | rfl | rfl | rfl | rfl | rfl | rfl <;> rfl

@[simp] theorem digitValue_digitChar (h : d < 10) : digitValue (digitChar d) = d := by
  unfold digitValue
  rw [digitChar_toNat h]
  omega

theorem isDigit_digitChar (h : d < 10) : isDigit (digitChar d) = true := by
  unfold isDigit
  rw [digitChar_toNat h]
  simp
  omega

theorem ne_of_isDigit (hc : isDigit c = true) (hsep : isDigit sep = false) : c ≠ sep := by
  rintro rfl
  rw [hc] at hsep
  cases hsep

@[simp] theorem length_fixedDigits (width n : Nat) : (fixedDigits width n).length = width := by
  induction width generalizing n with
  | zero => rfl
  | succ width ih => simp [fixedDigits, ih]

theorem isDigit_of_mem_fixedDigits (h : c ∈ fixedDigits width n) : isDigit c = true := by
  induction width generalizing n with
  | zero => cases h
  | succ width ih =>
    unfold fixedDigits at h
    rcases List.mem_append.mp h with h | h
    · exact ih h
    · rcases List.mem_singleton.mp h with rfl
      exact isDigit_digitChar (Nat.mod_lt _ (by omega))

theorem all_isDigit_fixedDigits (width n : Nat) : (fixedDigits width n).all isDigit = true := by
  rw [List.all_eq_true]
  exact fun c h => isDigit_of_mem_fixedDigits h

theorem not_mem_fixedDigits (hsep : isDigit sep = false) : sep ∉ fixedDigits width n := fun h => by
  rw [isDigit_of_mem_fixedDigits h] at hsep
  cases hsep

variable (digits : List Char)

theorem number_append_singleton (c : Char) :
    number (digits ++ [c]) = number digits * 10 + digitValue c := by
  simp [number, List.foldl_append]

theorem number_fixedDigits (width n : Nat) : number (fixedDigits width n) = n % 10 ^ width := by
  induction width generalizing n with
  | zero => simp [fixedDigits, number, Nat.mod_one]
  | succ width ih =>
    unfold fixedDigits
    rw [number_append_singleton, ih, digitValue_digitChar (Nat.mod_lt _ (by omega))]
    rw [Nat.pow_succ, Nat.mul_comm (10 ^ width) 10, Nat.mod_mul]
    omega

theorem number_fixedDigits_of_lt (h : n < 10 ^ width) : number (fixedDigits width n) = n := by
  rw [number_fixedDigits, Nat.mod_eq_of_lt h]

theorem foldl_number_zeros (n : Nat) :
    ∀ digits : List Char, (digits.dropWhile (· == '0')).foldl (fun n c => n * 10 + digitValue c) 0 =
      digits.foldl (fun n c => n * 10 + digitValue c) 0
  | [] => rfl
  | c :: rest => by
    by_cases hc : c = '0'
    · subst hc
      simp only [List.dropWhile_cons, beq_self_eq_true, if_true, List.foldl_cons]
      exact foldl_number_zeros n rest
    · simp [hc]

theorem number_dropZeros : number (digits.dropWhile (· == '0')) = number digits :=
  foldl_number_zeros 0 digits

theorem number_decimal (h : n < 10 ^ 20) : number (decimal n) = n := by
  have hnumber := number_dropZeros (fixedDigits 20 n)
  rw [number_fixedDigits_of_lt h] at hnumber
  unfold decimal
  split
  · rename_i hnil
    rw [hnil] at hnumber
    simpa [number, digitValue] using hnumber
  · exact hnumber

theorem isDigit_of_mem_decimal (h : c ∈ decimal n) : isDigit c = true := by
  unfold decimal at h
  split at h
  · rcases List.mem_singleton.mp h with rfl
    rfl
  · exact isDigit_of_mem_fixedDigits ((List.dropWhile_sublist _).subset h)

theorem all_isDigit_decimal (n : Nat) : (decimal n).all isDigit = true := by
  rw [List.all_eq_true]
  exact fun c h => isDigit_of_mem_decimal h

theorem not_mem_decimal (hsep : isDigit sep = false) : sep ∉ decimal n :=
  fun h => by
    rw [isDigit_of_mem_decimal h] at hsep
    cases hsep

theorem decimal_ne_nil (n : Nat) : decimal n ≠ [] := by
  unfold decimal
  split
  · simp
  · assumption

theorem number_lt (h : ∀ c ∈ digits, isDigit c = true) : number digits < 10 ^ digits.length := by
  induction digits using List.reverseRecOn with
  | nil => simp [number]
  | append_singleton digits c ih =>
    rw [number_append_singleton, List.length_append, List.length_singleton, Nat.pow_succ]
    have hd := ih fun d hd => h d (List.mem_append_left _ hd)
    have hc := h c (by simp)
    have hv : digitValue c ≤ 9 := by
      simp only [isDigit, Bool.and_eq_true, decide_eq_true_eq] at hc
      unfold digitValue
      omega
    omega

theorem lt_length_decimal {k : Nat} (hn : n < 10 ^ 20) (hk : 10 ^ k ≤ n) :
    k < (decimal n).length := by
  rcases Nat.lt_or_ge k (decimal n).length with h | h
  · exact h
  · have hlt := number_lt (decimal n) fun c hc => isDigit_of_mem_decimal hc
    rw [number_decimal hn] at hlt
    have := Nat.pow_le_pow_right (show 0 < 10 by omega) h
    omega

theorem fixedDigits_add (a b n : Nat) :
    fixedDigits (a + b) n = fixedDigits a (n / 10 ^ b) ++ fixedDigits b n := by
  induction b generalizing n with
  | zero => simp [fixedDigits]
  | succ b ih =>
    rw [← Nat.add_assoc]
    simp only [fixedDigits]
    rw [ih, List.append_assoc, Nat.div_div_eq_div_mul, Nat.pow_succ, Nat.mul_comm 10]

theorem fixedDigits_zero (width : Nat) : fixedDigits width 0 = List.replicate width '0' := by
  induction width with
  | zero => rfl
  | succ width ih =>
    unfold fixedDigits
    rw [Nat.zero_div, ih, List.replicate_succ']
    rfl

theorem dropWhile_replicate_append (width : Nat) (rest : List Char) :
    (List.replicate width '0' ++ rest).dropWhile (· == '0') = rest.dropWhile (· == '0') := by
  induction width with
  | zero => rfl
  | succ width ih => simp [List.replicate_succ, ih]

theorem length_decimal_le {n k : Nat} (hn : n < 10 ^ k) (hk : 1 ≤ k) (hk' : k ≤ 20) :
    (decimal n).length ≤ k := by
  have hsplit : fixedDigits 20 n = List.replicate (20 - k) '0' ++ fixedDigits k n := by
    have h := fixedDigits_add (20 - k) k n
    rw [Nat.sub_add_cancel hk', Nat.div_eq_of_lt hn, fixedDigits_zero] at h
    exact h
  have hle : ((fixedDigits 20 n).dropWhile (· == '0')).length ≤ k := by
    rw [hsplit, dropWhile_replicate_append]
    exact (List.dropWhile_sublist _).length_le.trans (Nat.le_of_eq (length_fixedDigits k n))
  unfold decimal
  split
  · exact hk
  · exact hle

/-! ## 3. Trailing zeros -/

/-- `trim_end_matches('0')`. -/
def trimZeros (digits : List Char) : List Char := digits.rdropWhile (· == '0')

theorem trimZeros_isPrefix_of : trimZeros digits <+: digits :=
  List.rdropWhile_prefix _ digits

theorem number_append_zeros (k : Nat) :
    number (digits ++ List.replicate k '0') = number digits * 10 ^ k := by
  induction k with
  | zero => simp
  | succ k ih =>
    rw [List.replicate_succ', ← List.append_assoc, number_append_singleton, ih, Nat.pow_succ]
    simp [digitValue, Nat.mul_assoc]

theorem trimZeros_append :
    trimZeros digits ++ List.replicate (digits.length - (trimZeros digits).length) '0' = digits := by
  induction digits using List.reverseRecOn with
  | nil => simp [trimZeros]
  | append_singleton digits c ih =>
    by_cases hc : c = '0'
    · subst hc
      have htrim : trimZeros (digits ++ ['0']) = trimZeros digits := by
        simp [trimZeros]
      have hle := (trimZeros_isPrefix_of digits).length_le
      rw [htrim, List.length_append, List.length_singleton,
        show digits.length + 1 - (trimZeros digits).length =
          digits.length - (trimZeros digits).length + 1 by omega,
        List.replicate_succ', ← List.append_assoc, ih]
    · have htrim : trimZeros (digits ++ [c]) = digits ++ [c] := by
        simp [trimZeros, hc]
      rw [htrim]
      simp

/-- **Trimming loses only a power of ten.** -/
theorem number_trimZeros :
    number (trimZeros digits) * 10 ^ (digits.length - (trimZeros digits).length) = number digits := by
  rw [← number_append_zeros, trimZeros_append]

theorem trimZeros_ne_nil {digits : List Char} (h : number digits ≠ 0) : trimZeros digits ≠ [] := by
  intro hnil
  apply h
  rw [← number_trimZeros, hnil]
  simp [number]

end Lithograph.Library
