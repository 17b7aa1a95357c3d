import ImageGraph.Proofs.Evaluation
import Mathlib.Data.List.Forall2

/-!
How an expression comes to its value. `Yields` lists the ways, in either scope and given the values of
the operands, so what is said about the values of expressions is proved by going through the list.
-/

set_option autoImplicit false

namespace ImageGraph

inductive Yields (scope : Scope) : Expr → Value → Prop where
  | literal (number : Float) (span : Span) : Yields scope (.number number span) (.number number)
  | named {names : Registry} {defaults : Defaults} {name : String} {image : Image} (span : Span)
      (graph : scope = .graph names defaults) (bound : names.get? name = some image) :
      Yields scope (.identifier name span) (.image image)
  | pi (span : Span)
      (unbound : ∀ names defaults, scope = .graph names defaults → names.get? "pi" = none) :
      Yields scope (.identifier "pi" span) (.number pi)
  | array {items : List Expr} {numbers : List Float} (span : Span)
      (computed : evaluateNumbers scope .arrayItem items = .ok numbers) :
      Yields scope (.array items span) (.numbers numbers)
  | math {function : String} {math : MathFunction} {arguments : List Expr} {numbers : List Float}
      {result : Float} (span : Span) (plain : scope.constructor? function = none)
      (named : MathFunction.named? function = some math)
      (computed : evaluateNumbers scope (.mathArgument function) arguments = .ok numbers)
      (applied : math.value? numbers = some result) (bounded : Number.isFinite result = true) :
      Yields scope (.call function arguments span) (.number result)
  | color {function : String} {color : ColorFunction} {arguments : List Expr}
      {channels : List Float} {shade : Color} (span : Span)
      (makes : scope.constructor? function = some (.color color))
      (computed : evaluateNumbers scope (.colorArgument color) arguments = .ok channels)
      (applied : color.shade? channels = some shade) :
      Yields scope (.call function arguments span) (.color shade)
  | generator {names : Registry} {defaults : Defaults} {function : String} {source : Generator}
      {argument : Expr} {resolution : Resolution} (span : Span)
      (graph : scope = .graph names defaults)
      (makes : Constructor.named? function = some (.image (.generator source)))
      (given : resolutionOf names defaults source argument = .ok resolution) :
      Yields scope (.call function [argument] span) (.image (.ofGenerator source resolution))
  | effect {names : Registry} {defaults : Defaults} {function : String} {arguments : List Expr}
      {image : Image} (span : Span) (graph : scope = .graph names defaults)
      (makes : Constructor.named? function = some (.image image.kind))
      (effect : ∀ source, image.kind ≠ .generator source)
      (new : image.home = Image.newHome image.kind)
      (computed : evaluateImages scope defaults arguments = .ok image.inputs) :
      Yields scope (.call function arguments span) (.image image)
  | negation {operand : Expr} {number : Float} (span : Span)
      (computed : evaluate scope operand = .ok (.number number)) :
      Yields scope (.negation operand span) (.number (-number))
  | arithmetic {operator : Operator} {first second : Expr} {a b result : Float} (span : Span)
      (left : evaluate scope first = .ok (.number a))
      (right : evaluate scope second = .ok (.number b))
      (computed : operator.arithmetic? a b = some result)
      (bounded : Number.isFinite result = true) :
      Yields scope (.binary operator first second span) (.number result)
  | combination {names : Registry} {defaults : Defaults} {operator : Operator}
      {first second : Expr} {a b : Value} {x y : Image} (span : Span)
      (graph : scope = .graph names defaults) (left : evaluate scope first = .ok a)
      (right : evaluate scope second = .ok b) (leftServes : a.toImage defaults = .ok x)
      (rightServes : b.toImage defaults = .ok y) :
      Yields scope (.binary operator first second span) (.image (operator.combine x y))

theorem number_of_as_number {complaint : Found → Complaint} {value : Value} {number : Float}
    (isNumber : value.asNumber complaint = .ok number) : value = .number number := by
  unfold Value.asNumber at isNumber
  split at isNumber
  · rename_i same
    cases isNumber
    exact Value.eq_of_number same
  · cases isNumber

theorem numbers_computed {scope : Scope} {complaint : Found → Complaint} {operands : List Expr}
    {numbers : List Float} (computed : evaluateNumbers scope complaint operands = .ok numbers) :
    List.Forall₂ (fun operand number => evaluate scope operand = .ok (.number number)) operands
      numbers := by
  induction operands generalizing numbers with
  | nil =>
      rw [evaluateNumbers] at computed
      cases computed
      exact .nil
  | cons operand operands induction =>
      rw [evaluateNumbers] at computed
      obtain ⟨value, evaluated, computed⟩ := bind_eq_ok computed
      obtain ⟨number, isNumber, computed⟩ := bind_eq_ok computed
      obtain ⟨others, tailComputed, done⟩ := bind_eq_ok computed
      cases done
      obtain rfl := number_of_as_number isNumber
      exact .cons evaluated (induction tailComputed)

theorem finite_of_map {number : Float} {value : Value}
    (bounded : (finite number).map Value.number = .ok value) :
    value = .number number ∧ Number.isFinite number = true := by
  unfold finite at bounded
  split at bounded
  · rename_i isFinite
    cases bounded
    exact ⟨rfl, isFinite⟩
  · cases bounded

variable {scope : Scope} {function : String} {arguments : List Expr} {value : Value}

theorem lookup_yields {name : String} (span : Span) (found : scope.lookup name = .ok value) :
    Yields scope (.identifier name span) value := by
  unfold Scope.lookup at found
  cases scope with
  | numeric =>
      simp only at found
      split at found
      · rename_i isPi
        subst isPi
        cases found
        exact .pi span (by simp)
      · cases found
  | graph names defaults =>
      simp only at found
      split at found
      · rename_i image bound
        cases found
        exact .named span rfl bound
      · rename_i unbound
        split at found
        · rename_i isPi
          subst isPi
          cases found
          refine .pi span ?_
          rintro _ _ ⟨⟩
          exact unbound
        · cases found

theorem math_call_yields (span : Span) (plain : scope.constructor? function = none)
    (evaluated : evaluate scope (.call function arguments span) = .ok value) :
    Yields scope (.call function arguments span) value := by
  rw [evaluate_plain_call scope plain, evaluateMath] at evaluated
  split at evaluated
  · cases evaluated
  rename_i math named
  split at evaluated
  · obtain ⟨numbers, computed, evaluated⟩ := bind_eq_ok evaluated
    split at evaluated
    · rename_i result applied
      obtain ⟨rfl, bounded⟩ := finite_of_map evaluated
      exact .math span plain named computed applied bounded
    · cases evaluated
  · cases evaluated

section Graph

variable {names : Registry} {defaults : Defaults}

theorem color_call_yields {color : ColorFunction} (span : Span)
    (found : Constructor.named? function = some (.color color))
    (accepted : color.arity.accepts arguments.length = true)
    (evaluated : evaluate (.graph names defaults) (.call function arguments span) = .ok value) :
    Yields (.graph names defaults) (.call function arguments span) value := by
  rw [evaluate_color found accepted] at evaluated
  obtain ⟨channels, computed, evaluated⟩ := bind_eq_ok evaluated
  split at evaluated
  · rename_i shade applied
    cases evaluated
    exact .color span found computed applied
  · cases evaluated

theorem effect_call_yields {kind : Kind} (span : Span)
    (found : Constructor.named? function = some (.image kind))
    (effect : ∀ source, kind ≠ .generator source)
    (accepted : kind.arity.accepts arguments.length = true)
    (evaluated : evaluate (.graph names defaults) (.call function arguments span) = .ok value) :
    Yields (.graph names defaults) (.call function arguments span) value := by
  rw [evaluate_effect found effect accepted] at evaluated
  obtain ⟨images, computed, evaluated⟩ := bind_eq_ok evaluated
  rw [← evaluate_images_length computed] at accepted
  obtain ⟨image, made, rfl, rfl, new⟩ := Image.of_kind_effect effect accepted
  rw [made] at evaluated
  cases evaluated
  exact .effect span rfl found effect new computed

theorem graph_call_yields (span : Span)
    (evaluated : evaluate (.graph names defaults) (.call function arguments span) = .ok value) :
    Yields (.graph names defaults) (.call function arguments span) value := by
  cases found : Constructor.named? function with
  | none => exact math_call_yields span found evaluated
  | some constructor =>
      cases accepted : constructor.arity.accepts arguments.length with
      | false =>
          rw [evaluate_wrong_count found accepted] at evaluated
          cases evaluated
      | true =>
          cases constructor with
          | color color => exact color_call_yields span found accepted evaluated
          | image kind =>
              by_cases effect : ∀ source, kind ≠ .generator source
              · exact effect_call_yields span found effect accepted evaluated
              · obtain ⟨source, isGenerator⟩ := not_forall.1 effect
                obtain rfl := not_not.1 isGenerator
                obtain ⟨argument, rfl⟩ := List.length_eq_one_iff.1 (eq_of_beq accepted)
                rw [evaluate_generator argument found] at evaluated
                obtain ⟨resolution, given, makes⟩ := bind_eq_ok evaluated
                cases makes
                exact .generator span rfl found given

end Graph

/-- What an operator makes of two values is a number if they are numbers, or the combination of the
images that they stand for. -/
theorem operator_yields {operator : Operator} {first second : Expr} {a b : Value} (span : Span)
    (left : evaluate scope first = .ok a) (right : evaluate scope second = .ok b)
    (applied : applyOperator scope operator a b = .ok value) :
    Yields scope (.binary operator first second span) value := by
  have combined (combines : applyOperator.combine scope operator a b = .ok value) :
      Yields scope (.binary operator first second span) value := by
    unfold applyOperator.combine at combines
    split at combines
    · cases combines
    · obtain ⟨x, leftServes, combines⟩ := bind_eq_ok combines
      obtain ⟨y, rightServes, combines⟩ := bind_eq_ok combines
      cases combines
      exact .combination span rfl left right leftServes rightServes
  unfold applyOperator at applied
  split at applied
  · rename_i x y firstNumber secondNumber
    obtain rfl := Value.eq_of_number firstNumber
    obtain rfl := Value.eq_of_number secondNumber
    split at applied
    · rename_i result computed
      split at applied
      · cases applied
      · obtain ⟨rfl, bounded⟩ := finite_of_map applied
        exact .arithmetic span left right computed bounded
    · exact combined applied
  · exact combined applied

/-- An expression that has a value has come to it in one of the ways. -/
theorem evaluate_yields {expression : Expr} (evaluated : evaluate scope expression = .ok value) :
    Yields scope expression value := by
  cases expression with
  | number number span =>
      rw [evaluate] at evaluated
      cases evaluated
      exact .literal number span
  | identifier name span =>
      rw [evaluate] at evaluated
      exact lookup_yields span evaluated
  | resolution width height span =>
      rw [evaluate] at evaluated
      cases evaluated
  | array items span =>
      rw [evaluate] at evaluated
      obtain ⟨numbers, computed, makes⟩ := bind_eq_ok evaluated
      cases makes
      exact .array span computed
  | call function arguments span =>
      cases scope with
      | numeric => exact math_call_yields span rfl evaluated
      | graph names defaults => exact graph_call_yields span evaluated
  | negation operand span =>
      rw [evaluate] at evaluated
      obtain ⟨inner, computed, evaluated⟩ := bind_eq_ok evaluated
      obtain ⟨number, isNumber, makes⟩ := bind_eq_ok evaluated
      obtain rfl := number_of_as_number isNumber
      cases makes
      exact .negation span computed
  | binary operator first second span =>
      rw [evaluate] at evaluated
      obtain ⟨a, left, evaluated⟩ := bind_eq_ok evaluated
      obtain ⟨b, right, applied⟩ := bind_eq_ok evaluated
      exact operator_yields span left right applied

end ImageGraph
