import Mathlib.Algebra.Group.Int.Defs
import Mathlib.Algebra.Group.Nat.Defs
import WindowMachine.Number.Decimal
import WindowMachine.Text.Numeral

/-!
# Decimal numerals read back

The digits that a number is written with spell that number.  They are read in
base ten unless the number is zero, because only zero is written with a zero
in front; and a zero alone has the same value in every base.
-/

namespace WindowMachine

/-! ## Digits -/

theorem digitsValue_toDigits (n : Nat) :
    digitsValue (Nat.toDigits 10 n) = n :=
  Nat.ofDigitChars_ten_toDigits

theorem isDigit_of_mem_toDigits {n : Nat} {c : Char}
    (member : c ∈ Nat.toDigits 10 n) : c.isDigit = true :=
  Nat.isDigit_of_mem_toDigits (by decide) (by decide) member

/-- No number but zero is written with a zero in front. -/
theorem head_toDigits_ne_zero {n : Nat} (positive : 0 < n) :
    (Nat.toDigits 10 n).head? ≠ some '0' := by
  induction n using Nat.strongRecOn with
  | ind n inductionHypothesis =>
      by_cases small : n < 10
      · rw [Nat.toDigits_of_lt_base small]
        match n, positive, small with
        | 1, _, _ | 2, _, _ | 3, _, _ | 4, _, _ | 5, _, _
        | 6, _, _ | 7, _, _ | 8, _, _ | 9, _, _ =>
            decide
      · have front := inductionHypothesis (n / 10) (by omega) (by omega)
        rw [Nat.toDigits_of_base_le (by decide) (by omega)]
        cases digits : Nat.toDigits 10 (n / 10) with
        | nil =>
            exact absurd digits Nat.toDigits_ne_nil
        | cons c rest =>
            simpa [digits] using front

namespace Integer

/-! ## Numbers without a sign -/

theorem digitValue_of_isDigit {c : Char} (digit : c.isDigit = true) :
    digitValue c = c.toNat - '0'.toNat := by
  simp [digitValue, digit]

theorem digitValue_lt_ten {c : Char} (digit : c.isDigit = true) :
    digitValue c < 10 := by
  rw [digitValue_of_isDigit digit]
  have bound : c.toNat ≤ 57 := (Char.isDigit_iff_toNat.mp digit).2
  simp only [Char.reduceToNat]
  omega

theorem ne_underscore_of_isDigit {c : Char} (digit : c.isDigit = true) :
    c ≠ '_' := by
  rintro rfl
  revert digit
  decide

/-- Digits never lower the value of those before them. -/
theorem le_ofDigitChars (digits : List Char) (n : Nat) :
    n ≤ Nat.ofDigitChars 10 digits n := by
  induction digits generalizing n with
  | nil =>
      exact Nat.le_refl n
  | cons c rest inductionHypothesis =>
      rw [Nat.ofDigitChars_cons]
      exact Nat.le_trans (by omega) (inductionHypothesis _)

theorem magnitudeFrom_ten {digits : List Char} {n : Nat}
    (numeric : ∀ c ∈ digits, c.isDigit = true)
    (fits : Nat.ofDigitChars 10 digits n < 2 ^ 64) :
    magnitudeFrom 10 n digits = .ok (Nat.ofDigitChars 10 digits n) := by
  induction digits generalizing n with
  | nil =>
      rfl
  | cons c rest inductionHypothesis =>
      have digit := numeric c List.mem_cons_self
      have next : n * 10 + digitValue c = 10 * n + (c.toNat - '0'.toNat) := by
        rw [digitValue_of_isDigit digit, Nat.mul_comm]
      rw [Nat.ofDigitChars_cons] at fits ⊢
      have bound : 10 * n + (c.toNat - '0'.toNat) < UInt64.size :=
        Nat.lt_of_le_of_lt (le_ofDigitChars rest _) fits
      simp only [magnitudeFrom, next, ne_underscore_of_isDigit digit, if_false,
        Nat.not_le.mpr (digitValue_lt_ten digit), Nat.not_le.mpr bound]
      exact inductionHypothesis
        (fun other member => numeric other (List.mem_cons_of_mem c member))
        fits

theorem basedDigits_of_head {digits : List Char}
    (head : digits.head? ≠ some '0') : basedDigits digits = (10, digits) := by
  unfold basedDigits
  split
  · simp at head
  · simp at head
  · rfl

theorem magnitude_toDigits {n : Nat} (fits : n < 2 ^ 64) :
    magnitude (Nat.toDigits 10 n) = .ok n := by
  by_cases zero : n = 0
  · subst zero
    rfl
  · have numeric : ∀ c ∈ Nat.toDigits 10 n, c.isDigit = true :=
      fun _ => isDigit_of_mem_toDigits
    have value : Nat.ofDigitChars 10 (Nat.toDigits 10 n) 0 = n :=
      digitsValue_toDigits n
    have plain : '_' ∉ Nat.toDigits 10 n := fun member =>
      ne_underscore_of_isDigit (numeric _ member) rfl
    simp [magnitude, Nat.toDigits_ne_nil, plain,
      basedDigits_of_head (head_toDigits_ne_zero (Nat.pos_of_ne_zero zero)),
      magnitudeFrom_ten numeric (by rw [value]; exact fits), value]

/-! ## Numbers with a sign -/

theorem signOf_toDigits (n : Nat) :
    signOf (Nat.toDigits 10 n) = (false, Nat.toDigits 10 n) := by
  have numeric : ∀ c ∈ Nat.toDigits 10 n, c.isDigit = true :=
    fun _ => isDigit_of_mem_toDigits
  cases digits : Nat.toDigits 10 n with
  | nil =>
      rfl
  | cons c rest =>
      have digit : c.isDigit = true := numeric c (by simp [digits])
      unfold signOf
      split
      · simp_all
      · simp_all
      · rfl

section Signs

variable {n : Nat}

theorem read_negative (fits : n ≤ 2 ^ 63) :
    read ('-' :: Nat.toDigits 10 n) = .ok (-(n : Int)) := by
  have value := magnitude_toDigits (show n < 2 ^ 64 by omega)
  simp only [read, signOf, value, if_true]
  rw [if_neg (by omega)]

theorem read_positive (fits : n < 2 ^ 63) :
    read ('+' :: Nat.toDigits 10 n) = .ok (n : Int) := by
  have value := magnitude_toDigits (show n < 2 ^ 64 by omega)
  simp only [read, signOf, value, Bool.false_eq_true, if_false]
  rw [if_neg (by omega)]

theorem read_unsigned (fits : n < 2 ^ 63) :
    read (Nat.toDigits 10 n) = .ok (n : Int) := by
  have value := magnitude_toDigits (show n < 2 ^ 64 by omega)
  simp only [read, signOf_toDigits, value, Bool.false_eq_true, if_false]
  rw [if_neg (by omega)]

end Signs

variable {i : Int} (lower : -2 ^ 63 ≤ i) (upper : i < 2 ^ 63)

include lower upper

theorem read_ofInt : read (Numeral.ofInt i).toList = .ok i := by
  by_cases negative : i < 0
  · have value : -(i.natAbs : Int) = i := by omega
    simp only [Numeral.ofInt, negative, if_true, Numeral.ofNat,
      String.toList_append, String.toList_ofList]
    exact (read_negative (by omega)).trans (congrArg _ value)
  · have value : (i.natAbs : Int) = i := by omega
    simp only [Numeral.ofInt, negative, if_false, Numeral.ofNat,
      String.toList_ofList]
    exact (read_unsigned (by omega)).trans (congrArg _ value)

theorem read_signed : read (Numeral.signed i).toList = .ok i := by
  by_cases negative : i < 0
  · have value : -(i.natAbs : Int) = i := by omega
    simp only [Numeral.signed, negative, if_true, Numeral.ofNat,
      String.toList_append, String.toList_ofList]
    exact (read_negative (by omega)).trans (congrArg _ value)
  · have value : (i.natAbs : Int) = i := by omega
    simp only [Numeral.signed, negative, if_false, Numeral.ofNat,
      String.toList_append, String.toList_ofList]
    exact (read_positive (by omega)).trans (congrArg _ value)

end Integer

end WindowMachine
