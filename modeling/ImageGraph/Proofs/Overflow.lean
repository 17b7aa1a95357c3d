import ImageGraph.Proofs.Finiteness
import ImageGraph.Proofs.Truncation
import ImageGraph.Proofs.Written

/-!
Infinite values. The value of an expression is never something that is no number. A number in it can
be infinite only where a literal that is too large for a double stands alone or behind minus signs,
since functions and operators refuse results that are not finite.
-/

set_option autoImplicit false

namespace ImageGraph

namespace Number

/-- Half the spacing of the greatest finite doubles is two to the power of this. -/
def overflowScale : Nat := 970

/-- Half a spacing above the greatest finite double. What reaches it is rounded to infinity. -/
def overflowLimit : Nat := (2 ^ 54 - 1) * 2 ^ overflowScale

theorem round_le (numerator : Nat) {denominator : Nat} (positive : 0 < denominator) :
    2 * (denominator * roundHalfEven numerator denominator) ≤ 2 * numerator + denominator := by
  have parts := Nat.div_add_mod numerator denominator
  have rest := Nat.mod_lt numerator positive
  have next : denominator * (numerator / denominator + 1) =
      denominator * (numerator / denominator) + denominator := Nat.mul_succ _ _
  have odd : numerator / denominator % 2 < 2 := Nat.mod_lt _ Nat.zero_lt_two
  unfold roundHalfEven
  simp only
  split
  · omega
  · split
    · omega
    · have half : denominator * (numerator / denominator + numerator / denominator % 2) ≤
          denominator * (numerator / denominator + 1) := Nat.mul_le_mul_left _ (by omega)
      omega

theorem round_le_succ (numerator denominator : Nat) :
    roundHalfEven numerator denominator ≤ numerator / denominator + 1 := by
  have odd : numerator / denominator % 2 < 2 := Nat.mod_lt _ Nat.zero_lt_two
  unfold roundHalfEven
  simp only
  split_ifs <;> omega

/-- Only a ratio that reaches the limit is read as infinity. -/
theorem limit_of_infinite {numerator denominator : Nat} (positive : 0 < denominator)
    (infinite : nearestPattern numerator denominator = infinityPattern) :
    overflowLimit * denominator ≤ numerator := by
  let scaled := numerator * unitsPerOne
  let quotient := scaled / denominator
  let scale := quotient.log2 - 52
  have spacing : denominator <<< scale = denominator * 2 ^ scale := Nat.shiftLeft_eq _ _
  have reached :
      infinityPattern ≤ scale * patternsPerScale + roundHalfEven scaled (denominator <<< scale) := by
    rw [← infinite, nearestPattern]
    exact Nat.min_le_left _ _
  have few : roundHalfEven scaled (denominator <<< scale) ≤ 2 ^ 53 := by
    have most : quotient < 2 ^ scale * 2 ^ 53 := by
      refine Nat.lt_of_lt_of_le Nat.lt_log2_self ?_
      rw [← Nat.pow_add]
      exact Nat.pow_le_pow_right Nat.zero_lt_two (by omega)
    have small : scaled / (denominator <<< scale) < 2 ^ 53 := by
      rw [spacing, ← Nat.div_div_eq_div_mul]
      exact Nat.div_lt_of_lt_mul most
    exact (round_le_succ _ _).trans small
  unfold infinityPattern patternsPerScale at reached
  rcases Nat.lt_or_ge scale (972 + finestScale) with last | beyond
  · -- The patterns of the last scale end at infinity, so the limit is half a spacing below it.
    have isLast : scale = overflowScale + (1 + finestScale) := by
      unfold overflowScale finestScale at *
      omega
    have full : 2 ^ 53 ≤ roundHalfEven scaled (denominator <<< scale) := by
      unfold overflowScale finestScale at isLast
      omega
    have wider : 0 < denominator <<< scale := by
      rw [spacing]
      exact Nat.mul_pos positive (Nat.two_pow_pos _)
    have half := round_le scaled wider
    have product := Nat.mul_le_mul_left (denominator <<< scale) full
    have bound : (2 ^ 54 - 1) * (denominator <<< scale) ≤ 2 * scaled := by omega
    have wide : denominator <<< scale = denominator * (2 ^ overflowScale * (2 * unitsPerOne)) := by
      rw [spacing, isLast, Nat.pow_add, Nat.pow_add 2 1, ← units_per_one_eq, Nat.pow_one]
    apply Nat.le_of_mul_le_mul_right _ (Nat.mul_pos Nat.zero_lt_two units_per_one_positive)
    calc overflowLimit * denominator * (2 * unitsPerOne)
        = (2 ^ 54 - 1) * (denominator * (2 ^ overflowScale * (2 * unitsPerOne))) := by
          simp only [overflowLimit, Nat.mul_assoc, Nat.mul_left_comm]
      _ = (2 ^ 54 - 1) * (denominator <<< scale) := by rw [wide]
      _ ≤ 2 * scaled := bound
      _ = numerator * (2 * unitsPerOne) := Nat.mul_left_comm _ _ _
  · have nonzero : quotient ≠ 0 := by
      intro zero
      have none : scale = 0 := by
        change quotient.log2 - 52 = 0
        rw [zero]
        rfl
      omega
    have large : 2 ^ (54 + overflowScale + finestScale) ≤ quotient := by
      refine (Nat.pow_le_pow_right Nat.zero_lt_two ?_).trans (Nat.log2_self_le nonzero)
      unfold overflowScale
      omega
    have limit : overflowLimit ≤ 2 ^ 54 * 2 ^ overflowScale := Nat.mul_le_mul_right _ (Nat.sub_le _ _)
    apply Nat.le_of_mul_le_mul_right _ units_per_one_positive
    calc overflowLimit * denominator * unitsPerOne
        ≤ 2 ^ 54 * 2 ^ overflowScale * denominator * unitsPerOne :=
          Nat.mul_le_mul_right _ (Nat.mul_le_mul_right _ limit)
      _ = 2 ^ (54 + overflowScale + finestScale) * denominator := by
          rw [Nat.pow_add, Nat.pow_add, ← units_per_one_eq, Nat.mul_right_comm]
      _ ≤ quotient * denominator := Nat.mul_le_mul_right _ large
      _ ≤ scaled := Nat.div_mul_le_self _ _

theorem is_number_of_finite {x : Float} (finite : isFinite x = true) : isNumber x = true :=
  decide_eq_true (Nat.le_of_lt (of_decide_eq_true finite))

theorem is_number_neg {x : Float} (number : isNumber x = true) : isNumber (-x) = true := by
  have within : pattern x ≤ infinityPattern := of_decide_eq_true number
  rwa [isNumber, pattern_neg within]

namespace Decimal

def Overflows (decimal : Decimal) : Prop := overflowLimit * 10 ^ decimal.places ≤ decimal.digits

theorem pattern_to_float (decimal : Decimal) : pattern decimal.toFloat = decimal.nearest :=
  pattern_of_pattern false (nearest_le _ _)

theorem is_number (decimal : Decimal) : isNumber decimal.toFloat = true := by
  rw [isNumber, pattern_to_float]
  exact decide_eq_true (nearest_le _ _)

theorem finite_or_overflows (decimal : Decimal) :
    isFinite decimal.toFloat = true ∨ decimal.Overflows := by
  rw [isFinite, pattern_to_float]
  rcases Nat.lt_or_eq_of_le (nearest_le decimal.digits (Nat.pow 10 decimal.places)) with
    finite | infinite
  · exact .inl (decide_eq_true finite)
  · exact .inr (limit_of_infinite (Nat.pow_pos (by decide)) infinite)

end Decimal

end Number

open Number (Decimal isFinite isNumber)

namespace Expr

/-- The literals of the expression are read from decimals. -/
def IsRead (expression : Expr) : Prop :=
  ∀ x ∈ expression.literals, ∃ decimal : Decimal, x = decimal.toFloat

inductive Overflows : Expr → Prop where
  | literal {decimal : Decimal} (span : Span) (large : decimal.Overflows) :
      Overflows (.number decimal.toFloat span)
  | negation {operand : Expr} (span : Span) (large : Overflows operand) :
      Overflows (.negation operand span)

/-- What holds of a number that the expression evaluates to. -/
structure Gives (expression : Expr) (x : Float) : Prop where
  isNumber : isNumber x = true
  bounded : isFinite x = true ∨ expression.Overflows

theorem Gives.of_finite {expression : Expr} {x : Float} (finite : isFinite x = true) :
    expression.Gives x :=
  ⟨Number.is_number_of_finite finite, .inl finite⟩

theorem Gives.negation {operand : Expr} {x : Float} (gives : operand.Gives x) (span : Span) :
    Gives (.negation operand span) (-x) :=
  ⟨Number.is_number_neg gives.isNumber,
    gives.bounded.imp Number.is_finite_neg (Overflows.negation span)⟩

theorem IsRead.operand {expression operand : Expr} (isRead : expression.IsRead)
    (isOperand : operand ∈ expression.operands) : operand.IsRead := fun x isLiteral =>
  isRead x (literal_of_operand isOperand isLiteral)

theorem is_read_inherited : Inherited IsRead where
  number decimal span x isLiteral := ⟨decimal, List.mem_singleton.1 isLiteral⟩
  word span spelled := List.forall_mem_nil _
  label span spelled := List.forall_mem_nil _
  resolution span spelled := List.forall_mem_nil _
  array span each x isLiteral := by
    rw [literals, all_literals_eq] at isLiteral
    obtain ⟨item, isItem, isLiteral⟩ := List.mem_flatMap.1 isLiteral
    exact each item isItem x isLiteral
  call span spelled each x isLiteral := by
    rw [literals, all_literals_eq] at isLiteral
    obtain ⟨argument, isArgument, isLiteral⟩ := List.mem_flatMap.1 isLiteral
    exact each argument isArgument x isLiteral
  negation span inner := inner
  binary operator span left right := List.forall_mem_append.2 ⟨left, right⟩

variable {scope : Scope}

theorem gives_of_number (expression : Expr) (isRead : expression.IsRead) {x : Float}
    (evaluated : evaluate scope expression = .ok (.number x)) : expression.Gives x := by
  induction expression using by_operands generalizing x with
  | number value span =>
      cases evaluate_yields evaluated
      obtain ⟨decimal, rfl⟩ := isRead _ List.mem_cons_self
      exact ⟨decimal.is_number, decimal.finite_or_overflows.imp_right (Overflows.literal span)⟩
  | identifier name span =>
      cases evaluate_yields evaluated
      exact .of_finite finite_pi
  | resolution width height span => cases evaluate_yields evaluated
  | array items span each => cases evaluate_yields evaluated
  | call function arguments span each =>
      cases evaluate_yields evaluated with
      | math span plain named computed applied bounded => exact .of_finite bounded
  | negation operand span induction =>
      cases evaluate_yields evaluated with
      | negation span computed =>
          exact (induction (isRead.operand List.mem_cons_self) computed).negation span
  | binary operator first second span left right =>
      cases evaluate_yields evaluated with
      | arithmetic span left right computed bounded => exact .of_finite bounded

theorem array_of_numbers {expression : Expr} {numbers : List Float}
    (evaluated : evaluate scope expression = .ok (.numbers numbers)) :
    ∃ items span, expression = .array items span ∧
      List.Forall₂ (fun item number => evaluate scope item = .ok (.number number)) items numbers := by
  cases evaluate_yields evaluated with
  | @array items numbers span computed => exact ⟨items, span, rfl, numbers_computed computed⟩

end Expr

theorem evaluate_number_computed {text : String} {x : Float} (computed : evaluateNumber text = .ok x) :
    ∃ expression, parse text = .ok expression ∧ evaluate .numeric expression = .ok (.number x) := by
  obtain ⟨expression, parsed, computed⟩ := bind_eq_ok computed
  obtain ⟨value, evaluated, isNumber⟩ := bind_eq_ok computed
  obtain rfl := number_of_as_number isNumber
  exact ⟨expression, parsed, evaluated⟩

/-- The numbers that an expression evaluates to are numbers. They are infinite only as literals that
are too large, and what is converted to a whole number is always a number. -/
theorem infinite_only_from_literals :
    (∀ (scope : Scope) (expression : Expr), expression.IsRead →
      (∀ x, evaluate scope expression = .ok (.number x) → expression.Gives x) ∧
      ∀ numbers, evaluate scope expression = .ok (.numbers numbers) →
        ∃ items span, expression = .array items span ∧ List.Forall₂ Expr.Gives items numbers) ∧
    (∀ text expression, parse text = .ok expression → expression.IsRead) ∧
    ∀ (property : Property) (text : String) (request : Request), property.kind = .int →
      readRequest property text = .ok request →
        ∃ x, evaluateNumber (Text.trim text) = .ok x ∧ isNumber x = true ∧
          request = .store (.int (Number.truncate x)) := by
  refine ⟨?_, fun text expression => Expr.is_read_inherited.parsed, ?_⟩
  · intro scope expression isRead
    refine ⟨fun x evaluated => expression.gives_of_number isRead evaluated, ?_⟩
    intro numbers evaluated
    obtain ⟨items, span, rfl, each⟩ := Expr.array_of_numbers evaluated
    refine ⟨items, span, rfl, ?_⟩
    have reads : ∀ item ∈ items, item.IsRead := fun item isItem => isRead.operand isItem
    clear isRead evaluated
    induction each with
    | nil => exact .nil
    | cons head tail induction =>
        rw [List.forall_mem_cons] at reads
        exact .cons (Expr.gives_of_number _ reads.1 head) (induction reads.2)
  · intro property text request isInt read
    rw [readRequest, isInt] at read
    cases computed : evaluateNumber (Text.trim text) with
    | error error =>
        rw [computed] at read
        cases read
    | ok x =>
        rw [computed] at read
        cases read
        obtain ⟨expression, parsed, evaluated⟩ := evaluate_number_computed computed
        have gives := expression.gives_of_number (Expr.is_read_inherited.parsed parsed) evaluated
        exact ⟨x, rfl, gives.isNumber, rfl⟩

def hugeDigits : List Char := '1' :: List.replicate 309 '0'

/-- An array of a number that is computed from a literal that is too large, and of such a literal. -/
def hugeItems : List Char := "[min(2, ".toList ++ hugeDigits ++ "), -".toList ++ hugeDigits ++ "]".toList

def Value.isNumbers (numbers : List Float) : Value → Bool
  | .numbers items => decide (items = numbers)
  | _ => false

theorem huge_items_read : ∃ expression, parse (String.ofList hugeItems) = .ok expression ∧
    evaluate .numeric expression = .ok (.numbers [2, -Expr.overflow]) := by
  -- The kernel takes long to go through a string, so it reads the characters instead.
  have read : ((Expr.readChars hugeItems).toOption.any fun expression =>
      (evaluate .numeric expression).toOption.any (Value.isNumbers [2, -Expr.overflow])) = true := by
    decide +kernel
  obtain ⟨expression, isRead, evaluated⟩ := (Option.any_eq_true _ _).1 read
  obtain ⟨value, evaluated, isNumbers⟩ := (Option.any_eq_true _ _).1 evaluated
  refine ⟨expression, Expr.parse_of_chars isRead, ?_⟩
  rw [ok_of_option evaluated]
  cases value with
  | numbers items => rw [of_decide_eq_true isNumbers]
  | _ => cases isNumbers

theorem seed_read : readRequest (.ofInt "seed" 1) " 3.7" = .ok (.store (.int 3)) := by
  apply ok_of_option
  decide +kernel

/-- A literal that is too large is infinite as an item, and a minimum passes over it. -/
theorem huge_literal_only_infinite :
    (∃ expression items span, parse (String.ofList hugeItems) = .ok expression ∧ expression.IsRead ∧
      evaluate .numeric expression = .ok (.numbers [2, -Expr.overflow]) ∧
      expression = .array items span ∧ List.Forall₂ Expr.Gives items [2, -Expr.overflow]) ∧
    (∃ expression, parse "-pi" = .ok expression ∧ expression.IsRead ∧
      evaluate .numeric expression = .ok (.number (-pi)) ∧ expression.Gives (-pi)) ∧
    readRequest (.ofInt "seed" 1) " 3.7" = .ok (.store (.int 3)) ∧
    ∃ x, evaluateNumber (Text.trim " 3.7") = .ok x ∧ isNumber x = true ∧
      Request.store (.int 3) = .store (.int (Number.truncate x)) := by
  obtain ⟨values, reads, conversions⟩ := infinite_only_from_literals
  refine ⟨?_, ?_, seed_read, conversions (.ofInt "seed" 1) " 3.7" _ rfl seed_read⟩
  · obtain ⟨expression, parsed, evaluated⟩ := huge_items_read
    have isRead := reads _ _ parsed
    obtain ⟨items, span, isArray, gives⟩ := (values _ _ isRead).2 _ evaluated
    exact ⟨expression, items, span, parsed, isRead, evaluated, isArray, gives⟩
  · have parsed : parse "-pi" = .ok (.negation (.identifier "pi" ⟨1, 3⟩) ⟨0, 3⟩) := by cbv
    have evaluated : evaluate .numeric (.negation (.identifier "pi" ⟨1, 3⟩) ⟨0, 3⟩) =
        .ok (.number (-pi)) := rfl
    have isRead := reads _ _ parsed
    exact ⟨_, parsed, isRead, evaluated, (values _ _ isRead).1 _ evaluated⟩

end ImageGraph
