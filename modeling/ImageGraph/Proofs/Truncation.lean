import ImageGraph.Proofs.Double

/-!
Truncation. The whole part of a double is a double itself, and what lies beyond the limits is held at
a limit. So a truncated number is what the double nearest to it is truncated to.
-/

set_option autoImplicit false

namespace ImageGraph.Number

theorem units_of_scale (scale : Nat) {significand : Nat} (above : 2 ^ 52 ≤ significand)
    (below : significand < 2 ^ 53) :
    unitsOf (scale * patternsPerScale + significand) = significand * 2 ^ scale := by
  have same : scaleOf (scale * patternsPerScale + significand) = scale := by
    rw [scaleOf, patterns_per_scale_eq]
    omega
  rw [units_eq, significandOf, same, Nat.add_sub_cancel_left]

theorem whole_has_pattern {whole : Nat} (small : whole < 2 ^ 53) :
    ∃ bits, bits ≤ infinityPattern ∧ unitsOf bits = whole * unitsPerOne := by
  rcases Nat.eq_zero_or_pos whole with rfl | positive
  · exact ⟨0, Nat.zero_le _, by rw [units_eq, Nat.zero_mul]; decide⟩
  · have least := Nat.log2_self_le (Nat.ne_of_gt positive)
    have most := @Nat.lt_log2_self whole
    have short : whole.log2 < 53 := (Nat.log2_lt (Nat.ne_of_gt positive)).2 small
    generalize whole.log2 = log at *
    have above : 2 ^ 52 ≤ whole * 2 ^ (52 - log) :=
      calc 2 ^ 52 = 2 ^ log * 2 ^ (52 - log) := by rw [← Nat.pow_add, Nat.add_sub_cancel' (by omega)]
        _ ≤ whole * 2 ^ (52 - log) := Nat.mul_le_mul_right _ least
    have below : whole * 2 ^ (52 - log) < 2 ^ 53 :=
      calc whole * 2 ^ (52 - log) < 2 ^ (log + 1) * 2 ^ (52 - log) :=
            Nat.mul_lt_mul_of_pos_right most (Nat.two_pow_pos _)
        _ = 2 ^ 53 := by rw [← Nat.pow_add]; congr 1; omega
    have scales : finestScale = 52 - log + (1022 + log) := by
      unfold finestScale
      omega
    refine ⟨(1022 + log) * patternsPerScale + whole * 2 ^ (52 - log), ?_, ?_⟩
    · unfold patternsPerScale infinityPattern
      omega
    · rw [units_of_scale _ above below, Nat.mul_assoc, ← Nat.pow_add, ← scales, units_per_one_eq]

theorem whole_part_has_pattern {x : Float} (number : pattern x ≤ infinityPattern) :
    ∃ bits, bits ≤ infinityPattern ∧ unitsOf bits = wholePart x * unitsPerOne := by
  rcases Nat.lt_or_ge (scaleOf (pattern x)) finestScale with fine | coarse
  · apply whole_has_pattern
    rw [wholePart, Nat.div_lt_iff_lt_mul units_per_one_positive, units, units_eq, units_per_one_eq]
    exact Nat.mul_lt_mul_of_lt_of_le (significand_lt _)
      (Nat.pow_le_pow_right (by decide) (Nat.le_of_lt fine)) (Nat.two_pow_pos _)
  · refine ⟨pattern x, number, ?_⟩
    rw [wholePart, units, Nat.div_mul_cancel]
    rw [units_eq, units_per_one_eq]
    exact Nat.dvd_mul_left_of_dvd (Nat.pow_dvd_pow 2 coarse) _

theorem whole_part_of_whole (negative : Bool) {whole bits : Nat} (number : bits ≤ infinityPattern)
    (equal : unitsOf bits = whole * unitsPerOne) :
    wholePart (ofWhole negative whole) = whole := by
  have nearest : nearestPattern whole 1 = bits :=
    nearest_of_units Nat.one_pos number (by rw [equal, Nat.mul_one])
  rw [ofWhole, nearest, wholePart, units, pattern_of_pattern negative number, equal,
    Nat.mul_div_cancel _ units_per_one_positive]

/-- A whole number that the double nearest to it is truncated to. -/
def IsTruncation (whole : Int) : Prop :=
  truncate (ofWhole (decide (whole < 0)) whole.natAbs) = whole

theorem nearest_le (numerator denominator : Nat) :
    nearestPattern numerator denominator ≤ infinityPattern := Nat.min_le_right _ _

theorem truncate_number {x : Float} (number : pattern x ≤ infinityPattern) :
    truncate x =
      if isNegative x then max leastInt (-(wholePart x : Int))
      else min greatestInt (wholePart x : Int) := by
  rw [truncate, isNumber, decide_eq_true number]
  exact if_neg Bool.false_ne_true

theorem truncate_of_whole (negative : Bool) {whole : Nat}
    (kept : wholePart (ofWhole negative whole) = whole) :
    truncate (ofWhole negative whole) =
      if negative then max leastInt (-(whole : Int)) else min greatestInt (whole : Int) := by
  have number : pattern (ofWhole negative whole) ≤ infinityPattern := by
    rw [ofWhole, pattern_of_pattern negative (nearest_le whole 1)]
    exact nearest_le whole 1
  have sign : isNegative (ofWhole negative whole) = negative :=
    is_negative_of_pattern negative (nearest_le whole 1)
  rw [truncate_number number, sign, kept]

theorem truncation_of_saturated {whole : Nat}
    (kept : ∀ negative, wholePart (ofWhole negative whole) = whole) (negative : Bool) :
    IsTruncation
      (if negative then max leastInt (-(whole : Int)) else min greatestInt (whole : Int)) := by
  cases negative with
  | false =>
      change IsTruncation (min greatestInt whole)
      rcases Int.le_total greatestInt whole with beyond | within
      · rw [Int.min_eq_left beyond, IsTruncation]
        decide +kernel
      · have unsigned : decide ((whole : Int) < 0) = false := decide_eq_false (by omega)
        rw [Int.min_eq_right within, IsTruncation, unsigned, Int.natAbs_natCast,
          truncate_of_whole false (kept false)]
        exact Int.min_eq_right within
  | true =>
      change IsTruncation (max leastInt (-whole))
      rcases Int.le_total (-whole) leastInt with beyond | within
      · rw [Int.max_eq_left beyond, IsTruncation]
        decide +kernel
      · rw [Int.max_eq_right within]
        rcases Nat.eq_zero_or_pos whole with rfl | positive
        · rw [IsTruncation]
          decide +kernel
        · have signed : decide (-(whole : Int) < 0) = true := decide_eq_true (by omega)
          rw [IsTruncation, signed, Int.natAbs_neg, Int.natAbs_natCast,
            truncate_of_whole true (kept true)]
          exact Int.max_eq_right within

/-- The whole part of a double is a double, so it is a truncation of its own. What lies beyond a limit
is that limit, which is one too. -/
theorem truncation_of_truncate (x : Float) : IsTruncation (truncate x) := by
  by_cases number : pattern x ≤ infinityPattern
  · obtain ⟨bits, bitsNumber, equal⟩ := whole_part_has_pattern number
    rw [truncate_number number]
    exact truncation_of_saturated (fun negative => whole_part_of_whole negative bitsNumber equal) _
  · have none : truncate x = 0 := by
      rw [truncate, isNumber, decide_eq_false number]
      exact if_pos Bool.not_false
    rw [none, IsTruncation]
    decide +kernel

end ImageGraph.Number
