/-
This file says what number digits stand for.

Digits in front of others count for as many powers of ten as there are others, so zeros
in front count for nothing and zeros behind for powers of ten. Digits that do not begin
with a zero are the digits of their number, and these are what a number is written with:
they do not end with a zero either if the number is not divisible by ten. So a positive
number with finitely many decimal places is one decimal number, with one significand that
is not divisible by ten and one power of ten, and its place, the power of ten just above
it, is where its digits begin.
-/
import Mathlib.Algebra.Order.Field.Power
import Mathlib.Data.List.Basic
import Mathlib.Data.List.Induction
import Mathlib.Data.Rat.Cast.Order
import Mathlib.Tactic.NormNum
import Mathlib.Tactic.Positivity
import Mathlib.Tactic.Ring
import SketchForm.Decimal.Numeral

namespace SketchForm

/-- Digits, one at least. -/
structure IsDigits (text : List Char) : Prop where
  nonempty : text ≠ []
  isDigit : ∀ c ∈ text, c.isDigit = true

namespace IsDigits

theorem isDigit_of_mem_zeros {count : Nat} {c : Char} (member : c ∈ List.replicate count '0') :
    c.isDigit = true := by
  rw [List.eq_of_mem_replicate member]
  rfl

variable {digits : List Char} (isDigits : IsDigits digits) (count : Nat)

include isDigits

theorem zeros_append : IsDigits (List.replicate count '0' ++ digits) := by
  refine ⟨List.append_ne_nil_of_right_ne_nil _ isDigits.nonempty, fun c member => ?_⟩
  rcases List.mem_append.mp member with zero | digit
  · exact isDigit_of_mem_zeros zero
  · exact isDigits.isDigit c digit

theorem append_zeros : IsDigits (digits ++ List.replicate count '0') := by
  refine ⟨List.append_ne_nil_of_left_ne_nil isDigits.nonempty _, fun c member => ?_⟩
  rcases List.mem_append.mp member with digit | zero
  · exact isDigits.isDigit c digit
  · exact isDigit_of_mem_zeros zero

end IsDigits

/-! ### The number that digits stand for -/

namespace Numeral

theorem digitsValue_append (front back : List Char) :
    digitsValue (front ++ back) = digitsValue front * 10 ^ back.length + digitsValue back := by
  show Nat.ofDigitChars 10 (front ++ back) 0 = _
  rw [Nat.ofDigitChars_append, Nat.ofDigitChars_eq_ofDigitChars_zero, Nat.mul_comm]
  rfl

theorem digitsValue_singleton (c : Char) : digitsValue [c] = c.toNat - '0'.toNat := by
  simp [digitsValue]

@[simp] theorem digitsValue_zeros (count : Nat) :
    digitsValue (List.replicate count '0') = 0 := by
  show Nat.ofDigitChars 10 _ 0 = 0
  rw [Nat.ofDigitChars_replicate_zero, Nat.mul_zero]

/-- Zeros in front count for nothing. -/
theorem digitsValue_zeros_append (count : Nat) (digits : List Char) :
    digitsValue (List.replicate count '0' ++ digits) = digitsValue digits := by
  rw [digitsValue_append, digitsValue_zeros, Nat.zero_mul, Nat.zero_add]

/-- Zeros behind count for powers of ten. -/
theorem digitsValue_append_zeros (count : Nat) (digits : List Char) :
    digitsValue (digits ++ List.replicate count '0') = digitsValue digits * 10 ^ count := by
  rw [digitsValue_append, digitsValue_zeros, List.length_replicate, Nat.add_zero]

@[simp] theorem digitsValue_digits (n : Nat) : digitsValue (Decimal.digits n) = n :=
  Nat.ofDigitChars_ten_toDigits

theorem sub_lt_ten {c : Char} (isDigit : c.isDigit = true) : c.toNat - '0'.toNat < 10 := by
  have upper : c.toNat ≤ '9'.toNat := (Bool.and_eq_true_iff.mp isDigit).2 |> of_decide_eq_true
  have : '9'.toNat = '0'.toNat + 9 := rfl
  omega

theorem digitChar_sub {c : Char} (isDigit : c.isDigit = true) :
    Nat.digitChar (c.toNat - '0'.toNat) = c := by
  have lower : '0'.toNat ≤ c.toNat := (Bool.and_eq_true_iff.mp isDigit).1 |> of_decide_eq_true
  have zero : '0'.toNat = 48 := rfl
  refine Char.toNat_inj.mp ?_
  rw [Nat.toNat_digitChar_of_lt_ten (sub_lt_ten isDigit)]
  omega

/-- The value of a digit that is not a zero. -/
theorem sub_ne_zero {c : Char} (isDigit : c.isDigit = true) (notZero : c ≠ '0') :
    c.toNat - '0'.toNat ≠ 0 := by
  intro isZero
  have same := digitChar_sub isDigit
  rw [isZero] at same
  exact notZero same.symm

theorem digitsValue_pos {text : List Char} (isDigits : IsDigits text)
    (head : text.head? ≠ some '0') : 0 < digitsValue text := by
  obtain ⟨c, rest, rfl⟩ := List.exists_cons_of_ne_nil isDigits.nonempty
  have notZero : c ≠ '0' := fun isZero => head (congrArg some isZero)
  have positive := Nat.pos_of_ne_zero
    (sub_ne_zero (isDigits.isDigit c List.mem_cons_self) notZero)
  rw [← List.singleton_append, digitsValue_append, digitsValue_singleton]
  exact Nat.add_pos_left (Nat.mul_pos positive (Nat.pow_pos (by decide))) _

/-- Digits that do not begin with a zero are those of their number. -/
theorem digits_digitsValue {text : List Char} (isDigits : IsDigits text)
    (head : text.head? ≠ some '0') : Decimal.digits (digitsValue text) = text := by
  induction text using List.reverseRecOn with
  | nil => exact absurd rfl isDigits.nonempty
  | append_singleton front c inductionHypothesis =>
    have isDigit : c.isDigit = true := isDigits.isDigit c (by simp)
    have own : Nat.toDigits 10 (c.toNat - '0'.toNat) = [c] := by
      rw [Nat.toDigits_of_lt_base (sub_lt_ten isDigit), digitChar_sub isDigit]
    cases front with
    | nil => rwa [List.nil_append, digitsValue_singleton]
    | cons first rest =>
      have front : IsDigits (first :: rest) :=
        ⟨List.cons_ne_nil _ _, fun c member => isDigits.isDigit c (List.mem_append_left _ member)⟩
      have before := inductionHypothesis front head
      have positive := digitsValue_pos front head
      have joined := Nat.toDigits_append_toDigits (b := 10) (by decide) positive
        (sub_lt_ten isDigit)
      rw [own, Nat.mul_comm] at joined
      rw [digitsValue_append, digitsValue_singleton, List.length_singleton, Nat.pow_one]
      exact joined.symm.trans (congrArg (· ++ [c]) before)

/-- Digits that do not end with a zero stand for no multiple of ten. -/
theorem digitsValue_mod_ten_ne {text : List Char} (isDigits : IsDigits text)
    (last : text.getLast? ≠ some '0') : digitsValue text % 10 ≠ 0 := by
  obtain ⟨front, c, rfl⟩ := (List.eq_nil_or_concat' text).resolve_left isDigits.nonempty
  have isDigit : c.isDigit = true := isDigits.isDigit c (by simp)
  have notZero : c ≠ '0' := by
    rintro rfl
    exact last List.getLast?_concat
  have small := sub_lt_ten isDigit
  have positive := sub_ne_zero isDigit notZero
  rw [digitsValue_append, digitsValue_singleton, List.length_singleton, Nat.pow_one]
  omega

end Numeral

/-! ### The digits of a number -/

namespace Decimal

theorem isDigits_digits (n : Nat) : IsDigits (digits n) :=
  ⟨Nat.toDigits_ne_nil, fun _ => Nat.isDigit_of_mem_toDigits (by decide) (by decide)⟩

theorem digits_of_lt {n : Nat} (small : n < 10) : digits n = [n.digitChar] :=
  Nat.toDigits_of_lt_base small

theorem digits_of_le {n : Nat} (large : 10 ≤ n) :
    digits n = digits (n / 10) ++ [(n % 10).digitChar] :=
  Nat.toDigits_of_base_le (by decide) large

theorem digitChar_eq_zero_iff {n : Nat} (small : n < 10) : n.digitChar = '0' ↔ n = 0 := by
  rw [← Char.toNat_inj, Nat.toNat_digitChar_of_lt_ten small]
  exact Nat.add_eq_left

/-- The digits of a positive number do not begin with a zero. -/
theorem head?_digits_ne {n : Nat} (positive : n ≠ 0) : (digits n).head? ≠ some '0' := by
  induction n using Nat.strong_induction_on with
  | _ n inductionHypothesis =>
    rcases Nat.lt_or_ge n 10 with small | large
    · rw [digits_of_lt small]
      exact fun isZero => positive ((digitChar_eq_zero_iff small).mp (Option.some.inj isZero))
    · rw [digits_of_le large, List.head?_append_of_ne_nil _ (isDigits_digits _).nonempty]
      exact inductionHypothesis (n / 10) (by omega) (by omega)

/-- The last digit is the remainder by ten. -/
theorem getLast?_digits (n : Nat) : (digits n).getLast? = some (n % 10).digitChar := by
  rcases Nat.lt_or_ge n 10 with small | large
  · rw [digits_of_lt small, Nat.mod_eq_of_lt small]
    rfl
  · rw [digits_of_le large, List.getLast?_concat]

theorem getLast?_digits_ne {n : Nat} (notMultiple : n % 10 ≠ 0) :
    (digits n).getLast? ≠ some '0' := by
  rw [getLast?_digits]
  intro isZero
  exact notMultiple ((digitChar_eq_zero_iff (Nat.mod_lt _ (by decide))).mp (Option.some.inj isZero))

theorem digitCount_pos (n : Nat) : 0 < digitCount n := Nat.length_toDigits_pos

theorem lt_pow_digitCount (n : Nat) : n < 10 ^ digitCount n :=
  (Nat.length_toDigits_le_iff (by decide) (digitCount_pos n)).mp le_rfl

theorem pow_digitCount_le {n : Nat} (positive : n ≠ 0) : 10 ^ (digitCount n - 1) ≤ n := by
  have count := digitCount_pos n
  by_contra less
  rcases Nat.eq_zero_or_pos (digitCount n - 1) with single | more
  · rw [single] at less
    omega
  · have fewer : digitCount n ≤ digitCount n - 1 :=
      (Nat.length_toDigits_le_iff (by decide) more).mpr (Nat.lt_of_not_le less)
    omega

/-! ### The value of a decimal number -/

/-- The rational number that a decimal number is. -/
def value (decimal : Decimal) : ℚ := decimal.significand * 10 ^ decimal.scale

/-- Whether the significand does not end in zero. -/
def IsReduced (decimal : Decimal) : Prop := decimal.significand % 10 ≠ 0

theorem IsReduced.ne_zero {decimal : Decimal} (reduced : decimal.IsReduced) :
    decimal.significand ≠ 0 :=
  fun isZero => reduced (by rw [isZero])

theorem value_congr {significand other : Nat} {scale otherScale : Int}
    (sameSignificand : significand = other) (sameScale : scale = otherScale) :
    value ⟨significand, scale⟩ = value ⟨other, otherScale⟩ := by
  rw [sameSignificand, sameScale]

theorem value_mul_pow (significand : Nat) (scale : Int) (count : Nat) :
    value ⟨significand * 10 ^ count, scale⟩ = value ⟨significand, scale + count⟩ := by
  rw [value, value, Nat.cast_mul, zpow_add₀ (by decide), zpow_natCast, Nat.cast_pow]
  push_cast
  ring

/-- Of two decimal numbers of one value, the one with the lower scale has the significand with more
zeros. -/
theorem significand_eq_of_value_eq {significand other count : Nat} {scale : Int}
    (same : value ⟨significand, scale⟩ = value ⟨other, scale + count⟩) :
    significand = other * 10 ^ count := by
  rw [← value_mul_pow, value, value] at same
  exact Nat.cast_injective (mul_right_cancel₀ (zpow_ne_zero scale (by decide)) same)

theorem IsReduced.value_pos {decimal : Decimal} (reduced : decimal.IsReduced) :
    0 < decimal.value :=
  mul_pos (Nat.cast_pos.mpr (Nat.pos_of_ne_zero reduced.ne_zero)) (by positivity)

/-- Decimal numbers of one value are one if their significands do not end in zero. -/
theorem IsReduced.eq_of_value_eq {decimal other : Decimal} (reduced : decimal.IsReduced)
    (otherReduced : other.IsReduced) (same : decimal.value = other.value) : decimal = other := by
  wlog ordered : decimal.scale ≤ other.scale generalizing decimal other
  · exact (this otherReduced reduced same.symm (Int.le_of_not_le ordered)).symm
  obtain ⟨significand, scale⟩ := decimal
  obtain ⟨otherSignificand, otherScale⟩ := other
  obtain ⟨count, rfl⟩ := Int.le.dest ordered
  obtain rfl := significand_eq_of_value_eq same
  cases count with
  | zero => simp
  | succ count =>
    refine absurd ?_ reduced
    show otherSignificand * 10 ^ (count + 1) % 10 = 0
    rw [Nat.pow_succ, ← Nat.mul_assoc, Nat.mul_mod_left]

/-- The place of a number is that of the power of ten just above it. -/
theorem value_lt_pow_point (decimal : Decimal) : decimal.value < 10 ^ decimal.point := by
  rw [value, point, zpow_add₀ (by decide), zpow_natCast]
  refine mul_lt_mul_of_pos_right ?_ (by positivity)
  exact_mod_cast lt_pow_digitCount decimal.significand

theorem pow_point_le_value {decimal : Decimal} (positive : decimal.significand ≠ 0) :
    10 ^ (decimal.point - 1) ≤ decimal.value := by
  have count := digitCount_pos decimal.significand
  have place : decimal.point - 1 =
      ((digitCount decimal.significand - 1 : Nat) : Int) + decimal.scale := by
    rw [point]
    omega
  rw [value, place, zpow_add₀ (by decide), zpow_natCast]
  refine mul_le_mul_of_nonneg_right ?_ (by positivity)
  exact_mod_cast pow_digitCount_le positive

/-- The place of a number is beyond another exactly if the number is no less than that power of
ten. -/
theorem lt_point_iff {decimal : Decimal} (positive : decimal.significand ≠ 0) (place : Int) :
    place < decimal.point ↔ 10 ^ place ≤ decimal.value := by
  constructor
  · intro beyond
    have smaller : (10 : ℚ) ^ place ≤ 10 ^ (decimal.point - 1) :=
      zpow_le_zpow_right₀ (by norm_num) (by omega)
    exact smaller.trans (pow_point_le_value positive)
  · intro reached
    by_contra within
    have larger : (10 : ℚ) ^ decimal.point ≤ 10 ^ place :=
      zpow_le_zpow_right₀ (by norm_num) (by omega)
    exact absurd (decimal.value_lt_pow_point.trans_le (larger.trans reached)) (lt_irrefl _)

/-! ### Numbers without zeros at their end -/

theorem isReduced_dropZeros {limit : Nat} {decimal : Decimal}
    (positive : decimal.significand ≠ 0) (enough : digitCount decimal.significand ≤ limit) :
    (dropZeros limit decimal).IsReduced := by
  induction limit generalizing decimal with
  | zero =>
    have count := digitCount_pos decimal.significand
    omega
  | succ limit inductionHypothesis =>
    rw [dropZeros]
    split
    next multiple =>
      have large : 10 ≤ decimal.significand := by omega
      have count : digitCount decimal.significand = digitCount (decimal.significand / 10) + 1 := by
        rw [digitCount, digits_of_le large, List.length_append]
        rfl
      have rest : decimal.significand / 10 ≠ 0 := by omega
      exact inductionHypothesis rest (by dsimp only; omega)
    next notMultiple => exact notMultiple

theorem isReduced_canonical {decimal : Decimal} (positive : decimal.significand ≠ 0) :
    decimal.canonical.IsReduced := by
  rw [canonical, if_neg positive]
  exact isReduced_dropZeros positive le_rfl

end Decimal

end SketchForm
