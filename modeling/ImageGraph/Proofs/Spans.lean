import ImageGraph.Proofs.Evaluation

/-!
Where an expression stood in a text has no part in its value.
-/

set_option autoImplicit false

namespace ImageGraph

namespace Expr

def nowhere : Span := ⟨0, 0⟩

mutual

/-- An expression without the ranges of the text that it was read from. -/
def bare : Expr → Expr
  | number value _ => number value nowhere
  | identifier name _ => identifier name nowhere
  | resolution width height _ => resolution width height nowhere
  | array items _ => array (bareAll items) nowhere
  | call function arguments _ => call function (bareAll arguments) nowhere
  | negation operand _ => negation operand.bare nowhere
  | binary operator first second _ => binary operator first.bare second.bare nowhere

def bareAll : List Expr → List Expr
  | [] => []
  | first :: others => first.bare :: bareAll others

end

theorem bare_all_eq_map (items : List Expr) : bareAll items = items.map bare := by
  induction items with
  | nil => rfl
  | cons first others induction => rw [bareAll, induction, List.map_cons]

theorem bare_all_append {items more others rest : List Expr} (same : bareAll items = bareAll others)
    (sameRest : bareAll more = bareAll rest) : bareAll (items ++ more) = bareAll (others ++ rest) := by
  simp only [bare_all_eq_map, List.map_append] at same sameRest ⊢
  rw [same, sameRest]

end Expr

theorem written_resolution_bare (names : Registry) (defaults : Defaults) (argument : Expr) :
    writtenResolution? names defaults argument.bare =
      writtenResolution? names defaults argument := by
  cases argument <;> rfl

theorem evaluate_numbers_bare {scope : Scope} {items : List Expr}
    (same : ∀ item ∈ items, evaluate scope item.bare = evaluate scope item)
    (complaint : Found → Complaint) :
    evaluateNumbers scope complaint (Expr.bareAll items) =
      evaluateNumbers scope complaint items := by
  induction items with
  | nil => rfl
  | cons first others induction =>
      rw [Expr.bareAll, evaluateNumbers, evaluateNumbers, same first List.mem_cons_self,
        induction fun item member => same item (List.mem_cons_of_mem _ member)]

theorem evaluate_images_bare {scope : Scope} {items : List Expr}
    (same : ∀ item ∈ items, evaluate scope item.bare = evaluate scope item)
    (defaults : Defaults) :
    evaluateImages scope defaults (Expr.bareAll items) = evaluateImages scope defaults items := by
  induction items with
  | nil => rfl
  | cons first others induction =>
      rw [Expr.bareAll, evaluateImages, evaluateImages, same first List.mem_cons_self,
        induction fun item member => same item (List.mem_cons_of_mem _ member)]

theorem evaluate_math_bare {scope : Scope} {function : String} {arguments : List Expr}
    (span : Span) (same : ∀ item ∈ arguments, evaluate scope item.bare = evaluate scope item)
    (plain : ∀ names defaults, scope = .graph names defaults →
      Constructor.named? function = none) :
    evaluate scope (Expr.call function arguments span).bare =
      evaluate scope (.call function arguments span) := by
  have count : (Expr.bareAll arguments).length = arguments.length := by
    rw [Expr.bare_all_eq_map, List.length_map]
  rw [Expr.bare, evaluate.eq_def, evaluate.eq_def scope (.call function arguments span)]
  cases scope with
  | numeric => simp only [count, evaluate_numbers_bare same]
  | graph names defaults =>
      simp only [plain names defaults rfl, count, evaluate_numbers_bare same]

theorem evaluate_constructor_bare {names : Registry} {defaults : Defaults} {function : String}
    {constructor : Constructor} {arguments : List Expr} (span : Span)
    (found : Constructor.named? function = some constructor)
    (same : ∀ item ∈ arguments,
      evaluate (.graph names defaults) item.bare = evaluate (.graph names defaults) item) :
    evaluate (.graph names defaults) (Expr.call function arguments span).bare =
      evaluate (.graph names defaults) (.call function arguments span) := by
  have count : (Expr.bareAll arguments).length = arguments.length := by
    rw [Expr.bare_all_eq_map, List.length_map]
  rw [Expr.bare]
  cases accepted : constructor.arity.accepts arguments.length with
  | false =>
      rw [evaluate_wrong_count found accepted, evaluate_wrong_count found (count ▸ accepted), count]
  | true =>
      rcases constructor with kind | color
      · by_cases generator : ∃ source, kind = .generator source
        · obtain ⟨source, rfl⟩ := generator
          obtain ⟨argument, rfl⟩ := List.length_eq_one_iff.1 (eq_of_beq accepted)
          rw [Expr.bareAll, Expr.bareAll, evaluate_generator _ found, evaluate_generator _ found,
            resolutionOf, resolutionOf, written_resolution_bare, same argument List.mem_cons_self]
        · have effect : ∀ source, kind ≠ .generator source :=
            fun source equal => generator ⟨source, equal⟩
          rw [evaluate_effect found effect accepted,
            evaluate_effect found effect (count ▸ accepted), evaluate_images_bare same]
      · rw [evaluate_color found accepted, evaluate_color found (count ▸ accepted),
          evaluate_numbers_bare same]

theorem evaluate_bare (scope : Scope) (expression : Expr) :
    evaluate scope expression.bare = evaluate scope expression := by
  induction expression using Expr.by_operands with
  | number value span => rfl
  | identifier name span => rfl
  | resolution width height span => rfl
  | array items span same => rw [Expr.bare, evaluate, evaluate, evaluate_numbers_bare same]
  | call function arguments span same =>
      cases found : Constructor.named? function with
      | none => exact evaluate_math_bare span same fun _ _ _ => found
      | some constructor =>
          cases scope with
          | numeric => exact evaluate_math_bare span same (by simp)
          | graph names defaults => exact evaluate_constructor_bare span found same
  | negation operand span same => rw [Expr.bare, evaluate, evaluate, same]
  | binary operator first second span firstSame secondSame =>
      rw [Expr.bare, evaluate, evaluate, firstSame, secondSame]

end ImageGraph
