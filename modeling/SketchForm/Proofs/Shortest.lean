/-
This file proves that the search for the shortest digits of a double never comes back
without any: seventeen digits always suffice.

On a grid of decimal numbers a double lies between two neighbours, one step apart. With
seventeen digits the step is no more than the double's own value divided by `10 ^ 16`, and
that is less than the whole width of the interval of numbers that round to it, since a
mantissa is below `2 ^ 53`. So the interval cannot lie between the two neighbours, and one
of them is in it. What is in the interval is not zero, so the digits that were found are
those of a positive number.
-/
import Mathlib.Tactic.FieldSimp
import Mathlib.Tactic.Linarith
import SketchForm.Decimal.Shortest
import SketchForm.Proofs.Digits

namespace SketchForm

namespace Decimal

/-! ### Comparing with a quotient -/

/-- A quotient divided by a power of ten, as two natural numbers. -/
def scaled (numerator denominator : Nat) (scale : Int) : Nat × Nat :=
  let power := Nat.pow 10 scale.natAbs
  if scale < 0 then (numerator * power, denominator) else (numerator, denominator * power)

section

variable (significand numerator : Nat) {denominator : Nat} (scale : Int)
variable (positive : 0 < denominator)

include positive

theorem scaled_pos : 0 < (scaled numerator denominator scale).2 := by
  rw [scaled]
  split
  next => exact positive
  next => exact Nat.mul_pos positive (Nat.pow_pos (by decide))

theorem div_eq_scaled :
    (numerator : ℚ) / denominator =
      (scaled numerator denominator scale).1 / (scaled numerator denominator scale).2 *
        10 ^ scale := by
  have below : (denominator : ℚ) ≠ 0 := Nat.cast_ne_zero.mpr positive.ne'
  simp only [scaled, Nat.pow_eq]
  by_cases negative : scale < 0
  · have unit : (10 : ℚ) ^ scale = (10 ^ scale.natAbs)⁻¹ := by
      rw [← zpow_natCast, ← zpow_neg]
      congr 1
      omega
    rw [if_pos negative, unit]
    push_cast
    field_simp
  · have unit : (10 : ℚ) ^ scale = 10 ^ scale.natAbs := by
      rw [← zpow_natCast]
      congr 1
      omega
    rw [if_neg negative, unit]
    push_cast
    field_simp

/-- Comparing a decimal number with a quotient is comparing natural numbers. -/
theorem value_le_div_iff :
    value ⟨significand, scale⟩ ≤ numerator / denominator ↔
      significand * (scaled numerator denominator scale).2 ≤
        (scaled numerator denominator scale).1 := by
  have unit : (0 : ℚ) < 10 ^ scale := by positivity
  have below : (0 : ℚ) < (scaled numerator denominator scale).2 :=
    Nat.cast_pos.mpr (scaled_pos numerator scale positive)
  rw [value, div_eq_scaled numerator scale positive, mul_le_mul_iff_left₀ unit, le_div_iff₀ below]
  exact_mod_cast Iff.rfl

theorem div_le_value_iff :
    (numerator : ℚ) / denominator ≤ value ⟨significand, scale⟩ ↔
      (scaled numerator denominator scale).1 ≤
        significand * (scaled numerator denominator scale).2 := by
  have unit : (0 : ℚ) < 10 ^ scale := by positivity
  have below : (0 : ℚ) < (scaled numerator denominator scale).2 :=
    Nat.cast_pos.mpr (scaled_pos numerator scale positive)
  rw [value, div_eq_scaled numerator scale positive, mul_le_mul_iff_left₀ unit, div_le_iff₀ below]
  exact_mod_cast Iff.rfl

/-- A quotient lies between its two neighbours. -/
theorem exists_neighbours_eq :
    ∃ lower, (∀ decimal, decimal ∈ neighbours numerator denominator scale ↔
        decimal = ⟨lower, scale⟩ ∨ decimal = ⟨lower + 1, scale⟩) ∧
      value ⟨lower, scale⟩ ≤ numerator / denominator ∧
      (numerator : ℚ) / denominator < value ⟨lower + 1, scale⟩ := by
  let parts := scaled numerator denominator scale
  have positiveParts : 0 < parts.2 := scaled_pos numerator scale positive
  let lower := parts.1 / parts.2
  have listed : neighbours numerator denominator scale =
      if Binary64.roundQuotient parts.1 parts.2 = lower then
        [⟨lower, scale⟩, ⟨lower + 1, scale⟩]
      else [⟨lower + 1, scale⟩, ⟨lower, scale⟩] := rfl
  refine ⟨lower, fun decimal => ?_, ?_, ?_⟩
  · rw [listed]
    split
    next => rw [List.mem_pair]
    next => rw [List.mem_pair, or_comm]
  · exact (value_le_div_iff _ _ _ positive).mpr (Nat.div_mul_le_self _ _)
  · rw [← not_le, value_le_div_iff _ _ _ positive]
    exact Nat.not_le_of_lt (Nat.lt_mul_of_div_lt (Nat.lt_succ_self _) positiveParts)

end

/-! ### The place of a quotient -/

/-- The place that is computed for a quotient is that of the power of ten just above it. -/
theorem quotientPoint_bounds {numerator denominator : Nat} (positive : 0 < numerator)
    (below : 0 < denominator) :
    (10 : ℚ) ^ (quotientPoint numerator denominator - 1) ≤ numerator / denominator ∧
      (numerator : ℚ) / denominator < 10 ^ quotientPoint numerator denominator := by
  have positiveCast : (0 : ℚ) < numerator := Nat.cast_pos.mpr positive
  have belowCast : (0 : ℚ) < denominator := Nat.cast_pos.mpr below
  rw [quotientPoint]
  split
  next large =>
    let whole := numerator / denominator
    have notZero : whole ≠ 0 := (Nat.div_pos large below).ne'
    have lower : 10 ^ (digitCount whole - 1) * denominator ≤ numerator :=
      (Nat.mul_le_mul_right _ (pow_digitCount_le notZero)).trans (Nat.div_mul_le_self _ _)
    have upper : numerator < 10 ^ digitCount whole * denominator :=
      Nat.lt_mul_of_div_lt (lt_pow_digitCount whole) below
    have place : (digitCount whole : Int) - 1 = (digitCount whole - 1 : Nat) := by
      have := digitCount_pos whole
      omega
    rw [place, zpow_natCast, zpow_natCast, le_div_iff₀ belowCast, div_lt_iff₀ belowCast]
    exact ⟨by exact_mod_cast lower, by exact_mod_cast upper⟩
  next small =>
    let whole := (denominator - 1) / numerator
    have notZero : whole ≠ 0 := (Nat.div_pos (by omega) positive).ne'
    have lower : 10 ^ (digitCount whole - 1) * numerator < denominator := by
      have := (Nat.mul_le_mul_right numerator (pow_digitCount_le notZero)).trans
        (Nat.div_mul_le_self _ _)
      omega
    have upper : denominator ≤ 10 ^ digitCount whole * numerator := by
      have := Nat.lt_mul_of_div_lt (lt_pow_digitCount whole) positive
      omega
    have place : (1 : Int) - digitCount whole - 1 = -(digitCount whole : Int) := by omega
    have front : (1 : Int) - digitCount whole = -((digitCount whole - 1 : Nat) : Int) := by
      have := digitCount_pos whole
      omega
    rw [place, front, zpow_neg, zpow_neg, zpow_natCast, zpow_natCast, inv_eq_one_div,
      inv_eq_one_div, div_le_div_iff₀ (by positivity) belowCast,
      div_lt_div_iff₀ belowCast (by positivity), one_mul, mul_comm (numerator : ℚ),
      mul_comm (numerator : ℚ)]
    exact ⟨by exact_mod_cast upper, by exact_mod_cast lower⟩

/-! ### The interval of a double -/

namespace RoundingInterval

variable {interval : RoundingInterval} {decimal : Decimal}

/-- What lies between the ends of an interval is in it. -/
theorem contains_of_between (positive : 0 < interval.denominator)
    (above : (interval.low : ℚ) / interval.denominator < decimal.value)
    (below : decimal.value < interval.high / interval.denominator) :
    interval.contains decimal = true := by
  obtain ⟨significand, scale⟩ := decimal
  rw [← not_le, value_le_div_iff _ _ _ positive, scaled] at above
  rw [← not_le, div_le_value_iff _ _ _ positive, scaled] at below
  rw [contains]
  by_cases negative : scale < 0
  · simp only [if_pos negative] at above below ⊢
    split <;> simp only [Bool.and_eq_true, decide_eq_true_eq] <;> omega
  · simp only [if_neg negative, Nat.mul_assoc, Nat.mul_one,
      Nat.mul_comm interval.denominator] at above below ⊢
    split <;> simp only [Bool.and_eq_true, decide_eq_true_eq] <;> omega

/-- Zero is in no interval of a positive number. -/
theorem significand_ne_zero_of_contains (positive : 0 < interval.low)
    (inside : interval.contains decimal = true) : decimal.significand ≠ 0 := by
  intro isZero
  have unit : 0 < (if decimal.scale < 0 then Nat.pow 10 decimal.scale.natAbs else 1) := by
    split
    next => exact Nat.pow_pos (by decide)
    next => exact Nat.one_pos
  have low := Nat.mul_pos positive unit
  rw [contains, isZero] at inside
  simp only [Nat.zero_mul, ite_self] at inside
  split at inside <;> simp only [Bool.and_eq_true, decide_eq_true_eq] at inside <;> omega

end RoundingInterval

theorem quotient_pos (exponent : Int) :
    0 < (Binary64.quotient 1 exponent).1 ∧ 0 < (Binary64.quotient 1 exponent).2 := by
  rw [Binary64.quotient]
  split
  next => exact ⟨Nat.one_pos, Nat.pow_pos (by decide)⟩
  next => exact ⟨Nat.mul_pos Nat.one_pos (Nat.pow_pos (by decide)), Nat.one_pos⟩

/-- The interval of a double in steps of a quarter: down to one or two of them below the double, and
one only if that many are fewer, up to two of them above. -/
theorem exists_roundingInterval_eq {mantissa : Nat} (positive : mantissa ≠ 0)
    (bounded : mantissa < 2 ^ 53) (exponent : Int) :
    ∃ below : Nat, below ≤ 2 ∧ 4 * mantissa < (below + 2) * 10 ^ 16 ∧
      ∃ step : ℚ, 0 < step ∧
        let interval := roundingInterval mantissa exponent
        0 < interval.value ∧ 0 < interval.low ∧ 0 < interval.denominator ∧
          (interval.value : ℚ) / interval.denominator = 4 * mantissa * step ∧
          (interval.low : ℚ) / interval.denominator = (4 * mantissa - below) * step ∧
          (interval.high : ℚ) / interval.denominator = (4 * mantissa + 2) * step := by
  let below := if mantissa = Nat.pow 2 52 ∧ -1074 < exponent then 1 else 2
  let unit := Binary64.quotient 1 (exponent - 2)
  obtain ⟨first, second⟩ : 0 < unit.1 ∧ 0 < unit.2 := quotient_pos (exponent - 2)
  have few : below ≤ 2 := by
    simp only [below]
    split <;> omega
  have narrow : 4 * mantissa < (below + 2) * 10 ^ 16 := by
    simp only [below]
    split
    next least => rw [least.1]; decide
    next => omega
  have step : (0 : ℚ) < unit.1 / unit.2 :=
    div_pos (Nat.cast_pos.mpr first) (Nat.cast_pos.mpr second)
  refine ⟨below, few, narrow, unit.1 / unit.2, step, ?_, ?_, second, ?_, ?_, ?_⟩
  · exact Nat.mul_pos (by omega) first
  · exact Nat.mul_pos (Nat.sub_pos_of_lt (by omega)) first
  · show ((4 * mantissa * unit.1 : Nat) : ℚ) / unit.2 = _
    push_cast
    ring
  · show (((4 * mantissa - below) * unit.1 : Nat) : ℚ) / unit.2 = _
    rw [Nat.cast_mul, Nat.cast_sub (by omega)]
    push_cast
    ring
  · show (((4 * mantissa + 2) * unit.1 : Nat) : ℚ) / unit.2 = _
    push_cast
    ring

/-- Of two neighbours on a grid of seventeen digits one is in the interval. -/
theorem exists_contains {mantissa : Nat} (positive : mantissa ≠ 0) (bounded : mantissa < 2 ^ 53)
    (exponent : Int) :
    let interval := roundingInterval mantissa exponent
    let place := quotientPoint interval.value interval.denominator
    ∃ decimal ∈ neighbours interval.value interval.denominator (place - 17),
      interval.contains decimal = true := by
  intro interval place
  obtain ⟨below, _, narrow, step, stepPositive, valuePositive, _, denominatorPositive, value,
    low, high⟩ := exists_roundingInterval_eq positive bounded exponent
  obtain ⟨lower, listed, notAbove, notBelow⟩ :=
    exists_neighbours_eq interval.value (place - 17) denominatorPositive
  let gap : ℚ := 10 ^ (place - 17)
  have next : Decimal.value ⟨lower + 1, place - 17⟩ = Decimal.value ⟨lower, place - 17⟩ + gap := by
    rw [Decimal.value, Decimal.value]
    push_cast
    ring
  have wide : gap < (below + 2) * step := by
    have reach := (quotientPoint_bounds valuePositive denominatorPositive).1
    have grid : (10 : ℚ) ^ (place - 1) = gap * 10 ^ 16 := by
      have places : place - 1 = place - 17 + (16 : Nat) := by
        push_cast
        ring
      rw [places, zpow_add₀ (by norm_num), zpow_natCast]
    have narrowCast : (4 * mantissa : ℚ) < (below + 2) * 10 ^ 16 := by exact_mod_cast narrow
    have scaledNarrow := mul_lt_mul_of_pos_right narrowCast stepPositive
    have within : gap * 10 ^ 16 < (below + 2) * 10 ^ 16 * step :=
      (grid ▸ value ▸ reach).trans_lt scaledNarrow
    rw [mul_right_comm] at within
    exact lt_of_mul_lt_mul_right within (by positivity)
  rw [value] at notAbove notBelow
  by_cases inside : (interval.low : ℚ) / interval.denominator < Decimal.value ⟨lower, place - 17⟩
  · refine ⟨⟨lower, place - 17⟩, (listed _).mpr (.inl rfl), ?_⟩
    refine RoundingInterval.contains_of_between denominatorPositive inside ?_
    rw [high]
    linarith
  · refine ⟨⟨lower + 1, place - 17⟩, (listed _).mpr (.inr rfl), ?_⟩
    rw [low, not_lt] at inside
    refine RoundingInterval.contains_of_between denominatorPositive ?_ ?_
    · rw [low]
      have : (0 : ℚ) ≤ below * step := by positivity
      linarith
    · rw [high, next]
      linarith

/-- A search finds digits of a positive number if there are any on one of its grids. -/
theorem searchGrids_ne_zero {interval : RoundingInterval} (positive : 0 < interval.low)
    {place : Int} {fuel count grid : Nat} (since : count ≤ grid) (upto : grid < count + fuel)
    (hit : ∃ decimal ∈ neighbours interval.value interval.denominator (place - grid),
      interval.contains decimal = true) :
    (searchGrids interval place fuel count).significand ≠ 0 := by
  induction fuel generalizing count with
  | zero => omega
  | succ fuel inductionHypothesis =>
    rw [searchGrids]
    split
    next decimal found =>
      exact RoundingInterval.significand_ne_zero_of_contains positive (List.find?_some found)
    next missed =>
      have later : count ≠ grid := by
        rintro rfl
        obtain ⟨decimal, member, inside⟩ := hit
        exact List.find?_eq_none.mp missed decimal member inside
      exact inductionHypothesis (by omega) (by omega)

/-- The shortest digits of a double other than zero are those of a positive number, and do not end
with a zero. -/
theorem isReduced_shortest {mantissa : Nat} (positive : mantissa ≠ 0)
    (bounded : mantissa < 2 ^ 53) (exponent : Int) : (shortest mantissa exponent).IsReduced := by
  obtain ⟨_, _, _, _, _, _, low, _⟩ := exists_roundingInterval_eq positive bounded exponent
  have hit := exists_contains positive bounded exponent
  exact isReduced_canonical (searchGrids_ne_zero low (by decide : 1 ≤ 17) (by decide) hit)

end Decimal

end SketchForm
