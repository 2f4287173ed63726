/-
This file proves how large a whole number can be for a double to be near it.

The largest double is a little below `2 ^ 1024`. A whole number beyond it is still
rounded to it if it is nearer to it than to `2 ^ 1024`, which would be the next double
if exponents went on. Halfway between the two is the limit: there, as everywhere, a tie
goes to the even mantissa, and the largest double has an odd one.
-/
import SketchForm.Binary64
import Mathlib.Tactic.Ring

namespace SketchForm

namespace Binary64

/-! ### Rounding a quotient -/

theorem le_roundQuotient (numerator denominator : Nat) :
    numerator / denominator ≤ roundQuotient numerator denominator := by
  simp only [roundQuotient]
  split
  · exact le_rfl
  · split
    · exact Nat.le_succ _
    · exact Nat.le_add_right _ _

theorem roundQuotient_le (numerator denominator : Nat) :
    roundQuotient numerator denominator ≤ numerator / denominator + 1 := by
  simp only [roundQuotient]
  split
  · exact Nat.le_succ _
  · split
    · exact le_rfl
    · omega

/-- A quotient is rounded to less than an even number exactly if it is nearer to the odd number
before. -/
theorem roundQuotient_lt_iff {numerator denominator : Nat} (positive : 0 < denominator)
    (half : Nat) :
    roundQuotient numerator denominator < 2 * half + 2 ↔
      2 * numerator < (4 * half + 3) * denominator := by
  have below := le_roundQuotient numerator denominator
  have above := roundQuotient_le numerator denominator
  have parts := Nat.div_add_mod numerator denominator
  have rest := Nat.mod_lt numerator positive
  have odd : (4 * half + 3) * denominator =
      2 * (denominator * (2 * half + 1)) + denominator := by ring
  rcases Nat.lt_trichotomy (numerator / denominator) (2 * half + 1) with less | same | more
  · have product : denominator * (numerator / denominator + 1) ≤ denominator * (2 * half + 1) :=
      Nat.mul_le_mul_left denominator less
    rw [Nat.mul_succ] at product
    exact iff_of_true (by omega) (by omega)
  · have last : (2 * half + 1) % 2 = 1 := by omega
    simp only [roundQuotient, same, last]
    rw [same] at parts
    split_ifs <;> omega
  · have product : denominator * (2 * half + 1 + 1) ≤ denominator * (numerator / denominator) :=
      Nat.mul_le_mul_left denominator more
    rw [Nat.mul_succ] at product
    exact iff_of_false (by omega) (by omega)

/-! ### Whole numbers as doubles -/

theorem lt_two_pow_mul {n first second : Nat} (nonzero : n ≠ 0) (less : n.log2 < first + second) :
    n < 2 ^ first * 2 ^ second := by
  rw [← Nat.pow_add]
  exact (Nat.log2_lt nonzero).mp less

theorem two_pow_mul_le {n first second : Nat} (nonzero : n ≠ 0) (more : first + second ≤ n.log2) :
    2 ^ first * 2 ^ second ≤ n := by
  rw [← Nat.pow_add]
  exact (Nat.le_log2 nonzero).mp more

theorem scale_one {n count : Nat} (short : count ≤ n.log2) :
    scale n 1 (n.log2 - count) = (n, 2 ^ (n.log2 - count)) := by
  have size : ((n.log2 : Int) - count).natAbs = n.log2 - count := by omega
  rw [scale, if_neg (by omega), size, Nat.one_mul, Nat.pow_eq]

/-- Scaled by its own magnitude, a whole number has just as many binary digits as asked for. -/
theorem scale_log2 {n : Nat} (nonzero : n ≠ 0) (count : Nat) :
    0 < (scale n 1 (n.log2 - count)).2 ∧
      2 ^ count * (scale n 1 (n.log2 - count)).2 ≤ (scale n 1 (n.log2 - count)).1 ∧
      (scale n 1 (n.log2 - count)).1 < 2 ^ (count + 1) * (scale n 1 (n.log2 - count)).2 := by
  have lower : 2 ^ n.log2 ≤ n := Nat.log2_self_le nonzero
  have upper : n < 2 ^ (n.log2 + 1) := Nat.lt_log2_self
  rcases Nat.lt_or_ge n.log2 count with less | short
  · have size : ((n.log2 : Int) - count).natAbs = count - n.log2 := by omega
    have exponent : n.log2 + (count - n.log2) = count := by omega
    rw [scale, if_pos (by omega), size]
    refine ⟨Nat.one_pos, ?_, ?_⟩
    · calc 2 ^ count * 1 = 2 ^ n.log2 * 2 ^ (count - n.log2) := by
            rw [← Nat.pow_add, exponent, Nat.mul_one]
        _ ≤ n * 2 ^ (count - n.log2) := Nat.mul_le_mul_right _ lower
    · calc n * 2 ^ (count - n.log2)
          < 2 ^ (n.log2 + 1) * 2 ^ (count - n.log2) :=
            Nat.mul_lt_mul_of_pos_right upper (Nat.two_pow_pos _)
        _ = 2 ^ (count + 1) * 1 := by
            rw [← Nat.pow_add, Nat.mul_one, Nat.add_right_comm, exponent]
  · have exponent : count + (n.log2 - count) = n.log2 := by omega
    have next : n.log2 < count + 1 + (n.log2 - count) := by omega
    rw [scale_one short]
    exact ⟨Nat.two_pow_pos _, two_pow_mul_le nonzero exponent.le, lt_two_pow_mul nonzero next⟩

theorem fittingExponent_one {n : Nat} (nonzero : n ≠ 0) :
    fittingExponent n 1 = n.log2 - (52 : Nat) := by
  obtain ⟨positive, lower, _⟩ := scale_log2 nonzero 53
  have estimate : max ((n.log2 : Int) - (Nat.log2 1 : Nat) - 53) (-1074) = n.log2 - (53 : Nat) := by
    have none : Nat.log2 1 = 0 := by decide
    rw [none]
    omega
  have large := (Nat.le_div_iff_mul_le positive).mpr lower
  simp only [fittingExponent, estimate]
  split
  · omega
  · contradiction

theorem nearestBits_one {n : Nat} (nonzero : n ≠ 0) :
    nearestBits n 1 = (n.log2 + 1022) * 2 ^ 52 +
      roundQuotient (scale n 1 (n.log2 - (52 : Nat))).1 (scale n 1 (n.log2 - (52 : Nat))).2 := by
  have shift : ((n.log2 : Int) - (52 : Nat) + 1074).toNat = n.log2 + 1022 := by omega
  simp only [nearestBits, if_neg nonzero, fittingExponent_one nonzero]
  rw [shift]
  rfl

/-- The bit pattern nearest to a whole number lies between those of the powers of two around it. -/
theorem nearestBits_bounds {n : Nat} (nonzero : n ≠ 0) :
    (n.log2 + 1023) * 2 ^ 52 ≤ nearestBits n 1 ∧ nearestBits n 1 ≤ (n.log2 + 1024) * 2 ^ 52 := by
  obtain ⟨denominator, lower, upper⟩ := scale_log2 nonzero 52
  rw [nearestBits_one nonzero]
  generalize scale n 1 (n.log2 - (52 : Nat)) = scaled at denominator lower upper ⊢
  have wholeLower := (Nat.le_div_iff_mul_le denominator).mpr lower
  have wholeUpper := (Nat.div_lt_iff_lt_mul denominator).mpr upper
  have below := le_roundQuotient scaled.1 scaled.2
  have above := roundQuotient_le scaled.1 scaled.2
  have next : (n.log2 + 1023) * 2 ^ 52 = (n.log2 + 1022) * 2 ^ 52 + 2 ^ 52 := Nat.succ_mul _ _
  have afterNext : (n.log2 + 1024) * 2 ^ 52 = (n.log2 + 1022) * 2 ^ 52 + 2 ^ (52 + 1) := by ring
  rw [next, afterNext]
  exact ⟨Nat.add_le_add_left (Nat.le_trans wholeLower below) _,
    Nat.add_le_add_left (Nat.le_trans above wholeUpper) _⟩

/-- The number halfway between the largest double and the next power of two. -/
def limit : Nat := (2 ^ 54 - 1) * 2 ^ 970

/-- With the exponent of the largest double, a whole number is rounded to it or to the next power of
two. -/
theorem nearestBits_lt_iff_of_log2_eq {n : Nat} (top : n.log2 = 1023) :
    nearestBits n 1 < 2047 * 2 ^ 52 ↔ n < limit := by
  have nonzero : n ≠ 0 := by
    rintro rfl
    rw [Nat.log2_zero] at top
    omega
  have row := @scale_one n 52 (by omega)
  have denominator : 0 < 2 ^ (n.log2 - 52) := Nat.two_pow_pos _
  have halves := @roundQuotient_lt_iff n _ denominator (2 ^ 52 - 1)
  have twice : 2 ^ (1023 - 52) = 2 ^ 970 * 2 := by rw [← Nat.pow_succ]
  rw [nearestBits_one nonzero, row, limit, top, twice]
  rw [top, twice] at halves
  dsimp only
  generalize 2 ^ 970 = unit at *
  omega

theorem nearestBits_lt_infinityBits_iff (n : Nat) : nearestBits n 1 < infinityBits ↔ n < limit := by
  have infinity : infinityBits = 2047 * 2 ^ 52 := by decide
  rw [infinity]
  by_cases nonzero : n = 0
  · rw [nonzero, nearestBits, if_pos rfl]
    exact iff_of_true (by decide) (Nat.mul_pos (by decide) (pow_pos two_pos _))
  · obtain ⟨lower, upper⟩ := nearestBits_bounds nonzero
    rcases Nat.lt_trichotomy n.log2 1023 with less | top | more
    · have small : n < 2 ^ 53 * 2 ^ 970 := lt_two_pow_mul nonzero less
      have inside : 2 ^ 53 * 2 ^ 970 ≤ limit := Nat.mul_le_mul_right _ (by decide)
      exact iff_of_true (by omega) (small.trans_le inside)
    · exact nearestBits_lt_iff_of_log2_eq top
    · have large : 2 ^ 54 * 2 ^ 970 ≤ n := two_pow_mul_le nonzero more
      have outside : limit ≤ 2 ^ 54 * 2 ^ 970 := Nat.mul_le_mul_right _ (by decide)
      exact iff_of_false (by omega) (Nat.not_lt.mpr (outside.trans large))

/-- An integer has a nearest double exactly if its magnitude is below the limit. -/
theorem isSome_ofInt?_iff (n : Int) : (ofInt? n).isSome ↔ n.natAbs < limit := by
  rw [← nearestBits_lt_infinityBits_iff, ofInt?, nearest?]
  split <;> simp_all

end Binary64

end SketchForm
