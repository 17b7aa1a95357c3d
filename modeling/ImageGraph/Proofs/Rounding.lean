import ImageGraph.Number.Decimal
import Mathlib.Tactic.Ring

/-!
Rounding is exact where it can be: a ratio that is a whole number of units of some pattern is read as
that pattern. The decimal that is written for a pattern is of this kind or has been tested by reading
it, so every pattern is read back from its decimal.
-/

set_option autoImplicit false

namespace ImageGraph.Number

/-- A unit is two to the power of minus this. -/
def finestScale : Nat := 1074

theorem units_per_one_eq : unitsPerOne = 2 ^ finestScale := Nat.one_shiftLeft finestScale

theorem units_per_one_positive : 0 < unitsPerOne := by
  rw [units_per_one_eq]
  exact Nat.two_pow_pos finestScale

theorem patterns_per_scale_eq : patternsPerScale = 2 ^ 52 := rfl

theorem units_eq (bits : Nat) : unitsOf bits = significandOf bits * 2 ^ scaleOf bits := by
  rw [unitsOf, Nat.shiftLeft_eq]

theorem scale_add_significand (bits : Nat) :
    scaleOf bits * patternsPerScale + significandOf bits = bits := by
  have whole := Nat.div_mul_le_self bits patternsPerScale
  have fewer : scaleOf bits * patternsPerScale ≤ bits / patternsPerScale * patternsPerScale :=
    Nat.mul_le_mul_right _ (Nat.sub_le _ _)
  rw [significandOf]
  omega

theorem significand_lt (bits : Nat) : significandOf bits < 2 ^ 53 := by
  rw [significandOf, scaleOf, patterns_per_scale_eq]
  omega

theorem significand_ge {bits : Nat} (spaced : 0 < scaleOf bits) :
    2 ^ 52 ≤ significandOf bits := by
  rw [scaleOf, patterns_per_scale_eq] at spaced
  rw [significandOf, scaleOf, patterns_per_scale_eq]
  omega

theorem log_units (bits : Nat) : (unitsOf bits).log2 - 52 = scaleOf bits := by
  have below := significand_lt bits
  rcases Nat.eq_zero_or_pos (scaleOf bits) with least | spaced
  · rw [units_eq, least, Nat.pow_zero, Nat.mul_one, Nat.sub_eq_zero_iff_le]
    rcases Nat.eq_zero_or_pos (significandOf bits) with none | some
    · rw [none]
      decide
    · have bound := (Nat.log2_lt (Nat.ne_of_gt some)).2 below
      omega
  · have above := significand_ge spaced
    have positive : unitsOf bits ≠ 0 := by
      rw [units_eq]
      exact Nat.mul_ne_zero (by omega) (Nat.ne_of_gt (Nat.pow_pos Nat.zero_lt_two))
    have log : (unitsOf bits).log2 = 52 + scaleOf bits := by
      rw [Nat.log2_eq_iff positive, units_eq, Nat.pow_add, Nat.add_right_comm, Nat.pow_add]
      exact ⟨Nat.mul_le_mul_right _ above,
        Nat.mul_lt_mul_of_pos_right below (Nat.pow_pos Nat.zero_lt_two)⟩
    omega

theorem round_exact (whole : Nat) {denominator : Nat} (positive : 0 < denominator) :
    roundHalfEven (whole * denominator) denominator = whole := by
  simp [roundHalfEven, Nat.mul_div_cancel _ positive, positive]

/-- A ratio that equals a pattern is read as that pattern. -/
theorem nearest_of_units {numerator denominator bits : Nat} (positive : 0 < denominator)
    (number : bits ≤ infinityPattern)
    (equal : numerator * unitsPerOne = unitsOf bits * denominator) :
    nearestPattern numerator denominator = bits := by
  have scaled : unitsOf bits * denominator = significandOf bits * (denominator <<< scaleOf bits) := by
    rw [units_eq, Nat.shiftLeft_eq]
    ring
  have spacing : 0 < denominator <<< scaleOf bits := by
    rw [Nat.shiftLeft_eq]
    exact Nat.mul_pos positive (Nat.pow_pos Nat.zero_lt_two)
  simp only [nearestPattern]
  rw [equal, Nat.mul_div_cancel _ positive, log_units, scaled, round_exact _ spacing,
    scale_add_significand]
  exact Nat.min_eq_left number

theorem round_scaled (numerator denominator : Nat) {factor : Nat} (positive : 0 < factor) :
    roundHalfEven (numerator * factor) (denominator * factor) =
      roundHalfEven numerator denominator := by
  have quotients := Nat.mul_div_mul_right numerator denominator positive
  have remainders : 2 * (numerator * factor % (denominator * factor)) =
      2 * (numerator % denominator) * factor := by
    rw [Nat.mul_mod_mul_right, Nat.mul_assoc]
  simp only [roundHalfEven, quotients, remainders, Nat.mul_lt_mul_right positive]

theorem nearest_scaled (numerator denominator : Nat) {factor : Nat} (positive : 0 < factor) :
    nearestPattern (numerator * factor) (denominator * factor) =
      nearestPattern numerator denominator := by
  have numerators : numerator * factor * unitsPerOne = numerator * unitsPerOne * factor :=
    Nat.mul_right_comm _ _ _
  have spacings (scale : Nat) :
      (denominator * factor) <<< scale = denominator <<< scale * factor := by
    rw [Nat.shiftLeft_eq, Nat.shiftLeft_eq, Nat.mul_right_comm]
  simp only [nearestPattern]
  rw [numerators, Nat.mul_div_mul_right _ _ positive, spacings, round_scaled _ _ positive]

namespace Decimal

theorem nearest_of_pattern {bits : Nat} (number : bits ≤ infinityPattern) :
    (ofPattern bits).nearest = bits := by
  apply nearest_of_units (Nat.pow_pos (by decide)) number
  rw [units_per_one_eq, units_eq, ofPattern]
  split
  · rename_i whole
    have coarse : scaleOf bits = scaleOf bits - 1074 + finestScale := by
      unfold finestScale
      omega
    simp only [Nat.shiftLeft_eq, Nat.pow_zero, Nat.mul_one]
    rw [Nat.mul_assoc, ← Nat.pow_add, ← coarse]
  · rename_i broken
    have fine : finestScale = scaleOf bits + (1074 - scaleOf bits) := by
      unfold finestScale
      omega
    generalize 1074 - scaleOf bits = places at *
    have ten : 10 ^ places = 5 ^ places * 2 ^ places := by
      rw [← Nat.mul_pow]
    simp only [Nat.pow_eq]
    rw [fine, Nat.pow_add, ten]
    ring

theorem nearest_shorten {bits : Nat} {exact : Decimal} (reads : exact.nearest = bits) (cut : Nat) :
    (shorten bits exact cut).nearest = bits := by
  induction cut with
  | zero => exact reads
  | succ cut induction =>
      simp only [shorten]
      split
      · rename_i belowReads
        split
        · rename_i both
          exact both.1
        · exact belowReads
      · split
        · rename_i aboveReads
          exact aboveReads
        · exact induction

theorem nearest_shortest {bits : Nat} (number : bits ≤ infinityPattern) :
    (shortest bits).nearest = bits :=
  nearest_shorten (nearest_of_pattern number) _

end Decimal

end ImageGraph.Number
