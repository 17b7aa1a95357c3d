import ImageGraph.Proofs.Form
import ImageGraph.Proofs.Mentions
import ImageGraph.Proofs.Scopes

/-!
Why an evaluation fails. `Raises` lists the errors that an expression can have a fault of its own for,
in either scope. An evaluation ends with an error only if the expression or one of its parts has that
fault, so later proofs about errors look at the list and not at the evaluation.
-/

set_option autoImplicit false

namespace ImageGraph

theorem bind_eq_error {First Result : Type} {first : Except Error First}
    {next : First → Except Error Result} {error : Error}
    (fails : (first >>= next) = .error error) :
    first = .error error ∨ ∃ value, first = .ok value ∧ next value = .error error := by
  cases first with
  | ok value => exact .inr ⟨value, rfl, fails⟩
  | error other =>
      cases fails
      exact .inl rfl

theorem map_m_eq_error {Item Result : Type} {compute : Item → Except Error Result}
    {items : List Item} {error : Error} (fails : items.mapM compute = .error error) :
    ∃ item ∈ items, compute item = .error error := by
  induction items with
  | nil => cases fails
  | cons item items induction =>
      rw [List.mapM_cons] at fails
      rcases bind_eq_error fails with headFails | ⟨result, _, fails⟩
      · exact ⟨item, List.mem_cons_self, headFails⟩
      rcases bind_eq_error fails with tailFails | ⟨results, _, done⟩
      · obtain ⟨other, isItem, otherFails⟩ := induction tailFails
        exact ⟨other, List.mem_cons_of_mem item isItem, otherFails⟩
      · cases done

/-- If the computation fails, then only with an error that is allowed. -/
def FailsOnly {Result : Type} (allowed : Error → Prop) (computed : Except Error Result) : Prop :=
  ∀ error, computed = .error error → allowed error

namespace FailsOnly

variable {First Result : Type} {allowed : Error → Prop}

theorem ok (result : Result) : FailsOnly allowed (.ok result) := by
  intro error fails
  cases fails

theorem error {own : Error} (isAllowed : allowed own) :
    FailsOnly allowed (.error own : Except Error Result) := by
  intro error fails
  cases fails
  exact isAllowed

theorem bind {first : Except Error First} {next : First → Except Error Result}
    (begins : FailsOnly allowed first)
    (continues : ∀ value, first = .ok value → FailsOnly allowed (next value)) :
    FailsOnly allowed (first >>= next) := by
  intro error fails
  rcases bind_eq_error fails with firstFails | ⟨value, succeeds, nextFails⟩
  · exact begins error firstFails
  · exact continues value succeeds error nextFails

theorem map {first : Except Error First} (update : First → Result)
    (begins : FailsOnly allowed first) : FailsOnly allowed (first.map update) := by
  intro error fails
  cases first with
  | ok value => cases fails
  | error own =>
      cases fails
      exact begins _ rfl

theorem map_error {Failure : Type} {report : Failure → Error} (first : Except Failure Result)
    (isAllowed : ∀ failure, allowed (report failure)) : FailsOnly allowed (first.mapError report) := by
  intro error fails
  cases first with
  | ok value => cases fails
  | error failure =>
      cases fails
      exact isAllowed failure

end FailsOnly

section Operands

variable (scope : Scope)

/-- An operand has a value that is no number where a number is needed. -/
def NotNumber (complaint : Found → Complaint) (operand : Expr) (error : Error) : Prop :=
  ∃ value, evaluate scope operand = .ok value ∧ value.number? = none ∧
    error = .badArgument (complaint value.found)

/-- An operand has a value that does not stand for an image where an image is needed. -/
def NotPictorial (operand : Expr) (error : Error) : Prop :=
  ∃ value, evaluate scope operand = .ok value ∧ value.pictorial = .error error

/-- The faults of an expression, other than those of its operands, and the error of each. -/
inductive Raises : Expr → Error → Prop where
  | unbound {name : String} {span : Span} {error : Error} (fails : scope.lookup name = .error error) :
      Raises (.identifier name span) error
  | misplaced (width height : String) (span : Span) :
      Raises (.resolution width height span) (.misplacedResolution width height)
  | item {items : List Expr} {span : Span} {item : Expr} {error : Error} (isItem : item ∈ items)
      (other : NotNumber scope .arrayItem item error) : Raises (.array items span) error
  | unknown {function : String} (arguments : List Expr) (span : Span)
      (plain : scope.constructor? function = none) (noMath : MathFunction.named? function = none) :
      Raises (.call function arguments span) (scope.unknownFunction function)
  | mathCount {function : String} {math : MathFunction} {arguments : List Expr} (span : Span)
      (plain : scope.constructor? function = none) (named : MathFunction.named? function = some math)
      (refused : math.arity.accepts arguments.length = false) :
      Raises (.call function arguments span) (.argumentCount function math.arity arguments.length)
  | mathArgument {function : String} {math : MathFunction} {arguments : List Expr} {span : Span}
      {argument : Expr} {error : Error} (plain : scope.constructor? function = none)
      (named : MathFunction.named? function = some math) (isArgument : argument ∈ arguments)
      (other : NotNumber scope (.mathArgument function) argument error) :
      Raises (.call function arguments span) error
  | mathResult {function : String} {math : MathFunction} {arguments : List Expr} (span : Span)
      {numbers : List Float} {result : Float} (plain : scope.constructor? function = none)
      (named : MathFunction.named? function = some math)
      (evaluated : evaluateNumbers scope (.mathArgument function) arguments = .ok numbers)
      (computed : math.value? numbers = some result) (unbounded : Number.isFinite result = false) :
      Raises (.call function arguments span) .notFinite
  | count {function : String} {constructor : Constructor} {arguments : List Expr} (span : Span)
      (makes : scope.constructor? function = some constructor)
      (refused : constructor.arity.accepts arguments.length = false) :
      Raises (.call function arguments span)
        (.argumentCount constructor.name constructor.arity arguments.length)
  | channel {function : String} {color : ColorFunction} {arguments : List Expr} {span : Span}
      {argument : Expr} {error : Error} (makes : scope.constructor? function = some (.color color))
      (isArgument : argument ∈ arguments)
      (other : NotNumber scope (.colorArgument color) argument error) :
      Raises (.call function arguments span) error
  | written {names : Registry} {defaults : Defaults} {function : String} {source : Generator}
      {argument : Expr} {error : Error} (span : Span) (graph : scope = .graph names defaults)
      (makes : scope.constructor? function = some (.image (.generator source)))
      (fails : writtenResolution? names defaults argument = some (.error error)) :
      Raises (.call function [argument] span) error
  | side {function : String} {source : Generator} {argument : Expr} {side : Value} {error : Error}
      (span : Span) (makes : scope.constructor? function = some (.image (.generator source)))
      (evaluated : evaluate scope argument = .ok side)
      (fails : computedResolution source side = .error error) :
      Raises (.call function [argument] span) error
  | input {function : String} {kind : Kind} {arguments : List Expr} {span : Span} {argument : Expr}
      {error : Error} (makes : scope.constructor? function = some (.image kind))
      (isArgument : argument ∈ arguments) (other : NotPictorial scope argument error) :
      Raises (.call function arguments span) error
  | negated {operand : Expr} {error : Error} (span : Span)
      (other : NotNumber scope .negated operand error) : Raises (.negation operand span) error
  | division {first second : Expr} {dividend divisor : Float} (span : Span)
      (evaluated : evaluate scope first = .ok (.number dividend))
      (alsoEvaluated : evaluate scope second = .ok (.number divisor)) (zero : (divisor == 0) = true) :
      Raises (.binary (.blend .divide) first second span) .divisionByZero
  | result {operator : Operator} {first second : Expr} {a b result : Float} (span : Span)
      (evaluated : evaluate scope first = .ok (.number a))
      (alsoEvaluated : evaluate scope second = .ok (.number b))
      (computed : operator.arithmetic? a b = some result)
      (unbounded : Number.isFinite result = false) :
      Raises (.binary operator first second span) .notFinite
  | uncomputable {operator : Operator} {first second : Expr} {a b : Value} (span : Span)
      (numeric : scope = .numeric) (evaluated : evaluate scope first = .ok a)
      (alsoEvaluated : evaluate scope second = .ok b) :
      Raises (.binary operator first second span) (.badArgument (.operands operator a.found b.found))
  | operand {operator : Operator} {first second operand : Expr} {error : Error} (span : Span)
      (isOperand : operand ∈ [first, second]) (other : NotPictorial scope operand error) :
      Raises (.binary operator first second span) error

def Expr.Raised (expression : Expr) (error : Error) : Prop :=
  ∃ part ∈ expression.parts, Raises scope part error

/-- Whatever error the evaluation of an expression ends with is raised in it. -/
def Expr.FailsAsRaised (expression : Expr) : Prop :=
  ∀ error, evaluate scope expression = .error error → expression.Raised scope error

end Operands

variable {scope : Scope} {error : Error}

theorem Raises.raised {expression : Expr} (raises : Raises scope expression error) :
    expression.Raised scope error :=
  ⟨expression, by rw [Expr.parts_eq]; exact List.mem_cons_self, raises⟩

theorem Expr.Raised.operand {expression operand : Expr} (raised : operand.Raised scope error)
    (isOperand : operand ∈ expression.operands) : expression.Raised scope error := by
  rcases raised with ⟨part, within, raises⟩
  exact ⟨part, part_of_operand isOperand within, raises⟩

theorem finite_fails {number : Float} (fails : (finite number).map Value.number = .error error) :
    error = .notFinite ∧ Number.isFinite number = false := by
  unfold finite at fails
  split at fails
  · cases fails
  · rename_i unbounded
    cases fails
    exact ⟨rfl, by simpa using unbounded⟩

theorem number_fails {complaint : Found → Complaint} {operand : Expr}
    (fails : (evaluate scope operand >>= Value.asNumber complaint) = .error error) :
    evaluate scope operand = .error error ∨ NotNumber scope complaint operand error := by
  rcases bind_eq_error fails with operandFails | ⟨value, evaluated, fails⟩
  · exact .inl operandFails
  · unfold Value.asNumber at fails
    split at fails
    · cases fails
    · rename_i other
      cases fails
      exact .inr ⟨value, evaluated, other, rfl⟩

theorem Value.pictorial_fails {defaults : Defaults} {value : Value}
    (fails : value.toImage defaults = .error error) : value.pictorial = .error error := by
  unfold toImage at fails
  cases stands : value.pictorial with
  | ok picture =>
      rw [stands] at fails
      cases fails
  | error other =>
      rw [stands] at fails
      cases fails
      rfl

theorem image_fails {defaults : Defaults} {operand : Expr}
    (fails : (evaluate scope operand >>= Value.toImage defaults) = .error error) :
    evaluate scope operand = .error error ∨ NotPictorial scope operand error := by
  rcases bind_eq_error fails with operandFails | ⟨value, evaluated, fails⟩
  · exact .inl operandFails
  · exact .inr ⟨value, evaluated, Value.pictorial_fails fails⟩

theorem numbers_fail {complaint : Found → Complaint} {operands : List Expr}
    (fails : evaluateNumbers scope complaint operands = .error error) :
    ∃ operand ∈ operands,
      evaluate scope operand = .error error ∨ NotNumber scope complaint operand error := by
  rw [evaluate_numbers_eq] at fails
  obtain ⟨operand, isOperand, fails⟩ := map_m_eq_error fails
  exact ⟨operand, isOperand, number_fails fails⟩

theorem images_fail {defaults : Defaults} {operands : List Expr}
    (fails : evaluateImages scope defaults operands = .error error) :
    ∃ operand ∈ operands,
      evaluate scope operand = .error error ∨ NotPictorial scope operand error := by
  rw [evaluate_images_eq] at fails
  obtain ⟨operand, isOperand, fails⟩ := map_m_eq_error fails
  exact ⟨operand, isOperand, image_fails fails⟩

theorem numbers_length {complaint : Found → Complaint} {operands : List Expr} {numbers : List Float}
    (evaluated : evaluateNumbers scope complaint operands = .ok numbers) :
    numbers.length = operands.length := (numbers_computed evaluated).length_eq.symm

namespace Expr

variable {function : String} {arguments : List Expr} {span : Span}

theorem raised_of_operand {expression operand : Expr} {own : Prop}
    (each : ∀ operand ∈ expression.operands, operand.FailsAsRaised scope)
    (isOperand : operand ∈ expression.operands)
    (fails : evaluate scope operand = .error error ∨ own)
    (raises : own → Raises scope expression error) : expression.Raised scope error := by
  rcases fails with operandFails | other
  · exact (each operand isOperand error operandFails).operand isOperand
  · exact (raises other).raised

theorem math_call_fails (span : Span)
    (each : ∀ argument ∈ arguments, argument.FailsAsRaised scope)
    (plain : scope.constructor? function = none) :
    (call function arguments span).FailsAsRaised scope := by
  intro error fails
  rw [evaluate_plain_call scope plain, evaluateMath] at fails
  split at fails
  · rename_i noMath
    cases fails
    exact (Raises.unknown arguments span plain noMath).raised
  rename_i math named
  split at fails
  · rename_i accepted
    rcases bind_eq_error fails with argumentsFail | ⟨numbers, evaluated, fails⟩
    · obtain ⟨argument, isArgument, fails⟩ := numbers_fail argumentsFail
      exact raised_of_operand each isArgument fails (.mathArgument plain named isArgument)
    · rw [← numbers_length evaluated] at accepted
      obtain ⟨result, computed⟩ := math.value_accepted accepted
      rw [computed] at fails
      obtain ⟨rfl, unbounded⟩ := finite_fails fails
      exact (Raises.mathResult span plain named evaluated computed unbounded).raised
  · rename_i refused
    cases fails
    exact (Raises.mathCount span plain named (by simpa using refused)).raised

variable {names : Registry} {defaults : Defaults}

theorem color_call_fails {color : ColorFunction} (span : Span)
    (each : ∀ argument ∈ arguments, argument.FailsAsRaised (.graph names defaults))
    (found : Constructor.named? function = some (.color color))
    (accepted : color.arity.accepts arguments.length = true) :
    (call function arguments span).FailsAsRaised (.graph names defaults) := by
  intro error fails
  rw [evaluate_color found accepted] at fails
  rcases bind_eq_error fails with argumentsFail | ⟨channels, evaluated, fails⟩
  · obtain ⟨argument, isArgument, fails⟩ := numbers_fail argumentsFail
    exact raised_of_operand each isArgument fails (.channel found isArgument)
  · rw [← numbers_length evaluated] at accepted
    obtain ⟨shade, makes⟩ := color.shade_accepted accepted
    rw [makes] at fails
    cases fails

theorem generator_call_fails {source : Generator} {argument : Expr} (span : Span)
    (argumentFails : argument.FailsAsRaised (.graph names defaults))
    (found : Constructor.named? function = some (.image (.generator source))) :
    (call function [argument] span).FailsAsRaised (.graph names defaults) := by
  intro error fails
  rw [evaluate_generator argument found] at fails
  rcases bind_eq_error fails with fails | ⟨resolution, _, done⟩
  · unfold resolutionOf at fails
    split at fails
    · rename_i written isWritten
      rw [fails] at isWritten
      exact (Raises.written span rfl found isWritten).raised
    · rcases bind_eq_error fails with operandFails | ⟨side, evaluated, fails⟩
      · exact (argumentFails error operandFails).operand List.mem_cons_self
      · have raises : Raises (.graph names defaults) (call function [argument] span) error :=
          .side span found evaluated fails
        exact raises.raised
  · cases done

theorem effect_call_fails {kind : Kind} (span : Span)
    (each : ∀ argument ∈ arguments, argument.FailsAsRaised (.graph names defaults))
    (found : Constructor.named? function = some (.image kind))
    (effect : ∀ source, kind ≠ .generator source)
    (accepted : kind.arity.accepts arguments.length = true) :
    (call function arguments span).FailsAsRaised (.graph names defaults) := by
  intro error fails
  rw [evaluate_effect found effect accepted] at fails
  rcases bind_eq_error fails with argumentsFail | ⟨images, evaluated, fails⟩
  · obtain ⟨argument, isArgument, fails⟩ := images_fail argumentsFail
    exact raised_of_operand each isArgument fails (.input found isArgument)
  · rw [← evaluate_images_length evaluated] at accepted
    obtain ⟨image, made, _⟩ := Image.of_kind_effect effect accepted
    rw [made] at fails
    cases fails

theorem call_fails (span : Span) (each : ∀ argument ∈ arguments, argument.FailsAsRaised scope) :
    (call function arguments span).FailsAsRaised scope := by
  cases scope with
  | numeric => exact math_call_fails span each rfl
  | graph names defaults =>
      cases found : Constructor.named? function with
      | none => exact math_call_fails span each found
      | some constructor =>
          cases accepted : constructor.arity.accepts arguments.length with
          | false =>
              intro error fails
              rw [evaluate_wrong_count found accepted] at fails
              cases fails
              have raises : Raises (.graph names defaults) (call function arguments span) _ :=
                .count span found accepted
              exact raises.raised
          | true =>
              cases constructor with
              | color color => exact color_call_fails span each found accepted
              | image kind =>
                  by_cases effect : ∀ source, kind ≠ .generator source
                  · exact effect_call_fails span each found effect accepted
                  · obtain ⟨source, isGenerator⟩ := not_forall.1 effect
                    obtain rfl := not_not.1 isGenerator
                    obtain ⟨argument, rfl⟩ := List.length_eq_one_iff.1 (eq_of_beq accepted)
                    exact generator_call_fails span (each argument List.mem_cons_self) found

/-- Two operands that have values are refused by the operator. -/
theorem operator_raises {operator : Operator} {first second : Expr} {a b : Value}
    (evaluated : evaluate scope first = .ok a) (alsoEvaluated : evaluate scope second = .ok b)
    (fails : applyOperator scope operator a b = .error error) :
    Raises scope (binary operator first second span) error := by
  have combined (fails : applyOperator.combine scope operator a b = .error error) :
      Raises scope (binary operator first second span) error := by
    unfold applyOperator.combine at fails
    split at fails
    · cases fails
      exact .uncomputable span rfl evaluated alsoEvaluated
    · rcases bind_eq_error fails with firstFails | ⟨x, _, fails⟩
      · exact .operand span List.mem_cons_self ⟨a, evaluated, Value.pictorial_fails firstFails⟩
      rcases bind_eq_error fails with secondFails | ⟨y, _, done⟩
      · exact .operand span (List.mem_cons_of_mem _ List.mem_cons_self)
          ⟨b, alsoEvaluated, Value.pictorial_fails secondFails⟩
      · cases done
  unfold applyOperator at fails
  split at fails
  · rename_i x y firstNumber secondNumber
    have isFirst : a = .number x := Value.eq_of_number firstNumber
    have isSecond : b = .number y := Value.eq_of_number secondNumber
    subst isFirst isSecond
    split at fails
    · rename_i result computed
      split at fails
      · rename_i divides
        obtain ⟨rfl, zero⟩ := divides
        cases fails
        exact .division span evaluated alsoEvaluated zero
      · obtain ⟨rfl, unbounded⟩ := finite_fails fails
        exact .result span evaluated alsoEvaluated computed unbounded
    · exact combined fails
  · exact combined fails

/-- An evaluation fails only with an error that is raised in the expression. -/
theorem fails_as_raised (scope : Scope) (expression : Expr) : expression.FailsAsRaised scope := by
  induction expression using by_operands with
  | number value span =>
      intro error fails
      rw [evaluate] at fails
      cases fails
  | identifier name span =>
      intro error fails
      rw [evaluate] at fails
      exact (Raises.unbound fails).raised
  | resolution width height span =>
      intro error fails
      rw [evaluate] at fails
      cases fails
      exact (Raises.misplaced width height span).raised
  | array items span each =>
      intro error fails
      rw [evaluate] at fails
      rcases bind_eq_error fails with itemsFail | ⟨numbers, _, done⟩
      · obtain ⟨item, isItem, fails⟩ := numbers_fail itemsFail
        exact raised_of_operand each isItem fails (.item isItem)
      · cases done
  | call function arguments span each => exact call_fails span each
  | negation operand span operandFails =>
      intro error fails
      rw [evaluate, ← bind_assoc] at fails
      rcases bind_eq_error fails with fails | ⟨number, _, done⟩
      · rcases number_fails fails with fails | other
        · exact (operandFails error fails).operand List.mem_cons_self
        · exact (Raises.negated span other).raised
      · cases done
  | binary operator first second span left right =>
      intro error fails
      rw [evaluate] at fails
      rcases bind_eq_error fails with firstFails | ⟨a, evaluated, fails⟩
      · exact (left error firstFails).operand List.mem_cons_self
      rcases bind_eq_error fails with secondFails | ⟨b, alsoEvaluated, fails⟩
      · exact (right error secondFails).operand (List.mem_cons_of_mem _ List.mem_cons_self)
      · exact (operator_raises evaluated alsoEvaluated fails).raised

end Expr

end ImageGraph
