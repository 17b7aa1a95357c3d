import ImageGraph.Proofs.Correspondence
import ImageGraph.Proofs.Yielding

/-!
The two scopes of evaluation. A number means the same in a property value and in an expression for an
image, unless an image has taken the name `pi`. Whatever the numeric scope does not know it refuses,
so the scope of the graph can give such expressions a meaning of its own without a conflict.
-/

set_option autoImplicit false

namespace ImageGraph

theorem Constructor.no_math_name (constructor : Constructor) :
    MathFunction.named? constructor.name = none := by
  rcases constructor with (source | effect | combination | arrangement) | function
  · cases source <;> rfl
  · cases effect <;> rfl
  · cases combination <;> rfl
  · cases arrangement <;> rfl
  · cases function <;> rfl

/-- Errors that an expression makes in the scope of the graph if it makes them in the numeric scope.
Other errors may only say that the numeric scope is the wrong one. -/
def Error.isShared : Error → Bool
  | divisionByZero | notFinite | argumentCount _ _ _ | misplacedResolution _ _ => true
  | _ => false

/-- The second computation has the result of the first, or its error if that is a shared one. -/
def Repeats {Result : Type} (first second : Except Error Result) : Prop :=
  match first with
  | .ok result => second = .ok result
  | .error error => error.isShared = true → second = .error error

namespace Repeats

variable {First Result : Type}

theorem same (computed : Except Error Result) : Repeats computed computed := by
  cases computed with
  | ok result => exact rfl
  | error error => exact fun _ => rfl

theorem refused {error : Error} {second : Except Error Result} (own : error.isShared = false) :
    Repeats (.error error) second := by
  intro shared
  rw [own] at shared
  cases shared

theorem bind {first second : Except Error First} {next other : First → Except Error Result}
    (begins : Repeats first second) (continues : ∀ value, Repeats (next value) (other value)) :
    Repeats (first >>= next) (second >>= other) := by
  cases first with
  | ok value =>
      have same : second = .ok value := begins
      subst same
      exact continues value
  | error error =>
      intro shared
      have same : second = .error error := begins shared
      subst same
      rfl

end Repeats

section Numbers

variable {names : Registry} (defaults : Defaults)

/-- What an expression yields in the numeric scope it yields in the scope of the graph. -/
def Expr.IsRepeated (names : Registry) (defaults : Defaults) (expression : Expr) : Prop :=
  Repeats (evaluate .numeric expression) (evaluate (.graph names defaults) expression)

theorem numbers_repeated (complaint : Found → Complaint) {items : List Expr}
    (each : ∀ item ∈ items, item.IsRepeated names defaults) :
    Repeats (evaluateNumbers .numeric complaint items)
      (evaluateNumbers (.graph names defaults) complaint items) := by
  induction items with
  | nil => exact .same _
  | cons item items induction =>
      rw [List.forall_mem_cons] at each
      rw [evaluateNumbers, evaluateNumbers]
      apply each.1.bind
      intro value
      apply (Repeats.same _).bind
      intro number
      apply (induction each.2).bind
      intro numbers
      exact .same _

theorem lookup_repeated (unbound : names.get? "pi" = none) (name : String) :
    Repeats (Scope.numeric.lookup name) ((Scope.graph names defaults).lookup name) := by
  by_cases isPi : name = "pi"
  · subst isPi
    simp only [Scope.lookup, unbound]
    exact .same _
  · simp only [Scope.lookup, isPi, if_false]
    exact .refused rfl

theorem call_repeated {function : String} {arguments : List Expr} (span : Span)
    (each : ∀ argument ∈ arguments, argument.IsRepeated names defaults) :
    (Expr.call function arguments span).IsRepeated names defaults := by
  unfold Expr.IsRepeated
  rw [evaluate_plain_call .numeric rfl, evaluateMath]
  cases found : Constructor.named? function with
  | some constructor =>
      rw [← Constructor.name_of_named found, constructor.no_math_name]
      exact .refused rfl
  | none =>
      rw [evaluate_plain_call (.graph names defaults) found, evaluateMath]
      cases MathFunction.named? function with
      | none => exact .refused rfl
      | some math =>
          simp only
          split
          · apply (numbers_repeated defaults _ each).bind
            intro numbers
            exact .same _
          · exact .same _

theorem operator_repeated (operator : Operator) (first second : Value) :
    Repeats (applyOperator .numeric operator first second)
      (applyOperator (.graph names defaults) operator first second) := by
  unfold applyOperator
  split
  · split
    · exact .same _
    · exact .refused rfl
  · exact .refused rfl

/-- If no image hides `pi`, every expression yields in the scope of the graph what it yields in the
numeric scope. -/
theorem Expr.is_repeated (unbound : names.get? "pi" = none) (expression : Expr) :
    expression.IsRepeated names defaults := by
  induction expression using by_operands with
  | number value span => exact .same _
  | identifier name span =>
      unfold IsRepeated
      rw [evaluate, evaluate]
      exact lookup_repeated defaults unbound name
  | resolution width height span =>
      unfold IsRepeated
      rw [evaluate, evaluate]
      exact .same _
  | array items span each =>
      unfold IsRepeated
      rw [evaluate, evaluate]
      apply (numbers_repeated defaults _ each).bind
      intro numbers
      exact .same _
  | call function arguments span each => exact call_repeated defaults span each
  | negation operand span repeated =>
      unfold IsRepeated
      rw [evaluate, evaluate]
      apply repeated.bind
      intro value
      exact .same _
  | binary operator first second span left right =>
      unfold IsRepeated
      rw [evaluate, evaluate]
      apply left.bind
      intro a
      apply right.bind
      intro b
      exact operator_repeated defaults operator a b

end Numbers

/-- Where no image has the name `pi`, the scope of the graph has the values of the numeric scope, and
those of its errors that are not about unknown names and functions or about operands that do not suit
it. So a text that gives a number compiles to one new image, of the gray level that the number is. -/
theorem graph_repeats_numbers {names : Registry} (defaults : Defaults)
    (unbound : names.get? "pi" = none) :
    (∀ expression value, evaluate .numeric expression = .ok value →
      evaluate (.graph names defaults) expression = .ok value) ∧
    (∀ expression error, evaluate .numeric expression = .error error → error.isShared = true →
      evaluate (.graph names defaults) expression = .error error) ∧
    ∀ text level, evaluateNumber text = .ok level →
      let settings : Settings := [.color ⟨level, level, level, 1⟩]
      compile names defaults text =
          .ok (.generator (.loose settings) .color defaults.constant) ∧
        ∀ store, (Image.generator (.loose settings) .color defaults.constant).settle store =
          (.generator (.stored store.size) .color defaults.constant, store.push settings) := by
  have repeats (expression : Expr) : expression.IsRepeated names defaults :=
    expression.is_repeated defaults unbound
  have values (expression : Expr) (value : Value)
      (numeric : evaluate .numeric expression = .ok value) :
      evaluate (.graph names defaults) expression = .ok value := by
    have repeated := repeats expression
    rw [Expr.IsRepeated, numeric] at repeated
    exact repeated
  refine ⟨values, ?_, ?_⟩
  · intro expression error failed
    have repeated := repeats expression
    rw [Expr.IsRepeated, failed] at repeated
    exact repeated
  · intro text level computed
    obtain ⟨expression, parsed, computed⟩ := bind_eq_ok computed
    obtain ⟨value, numeric, isNumber⟩ := bind_eq_ok computed
    obtain rfl := number_of_as_number isNumber
    have described : expression.describe names defaults = .ok (.ofColor defaults (.gray level)) :=
      described_iff.2 ⟨.number level, values expression _ numeric, rfl⟩
    refine ⟨?_, fun store => rfl⟩
    rw [compile_parsed parsed, described]
    rfl

/-- A full turn is a gray level, and a division by zero is one in both scopes. -/
theorem turn_repeated_beside_image :
    let names : Registry := [("x", .generator (.stored 0) .noise ⟨64, 64⟩)]
    let division := Expr.binary (.blend .divide) (.number 1 ⟨0, 1⟩) (.number 0 ⟨4, 5⟩) ⟨0, 5⟩
    let turn : Float := 6.283185307179586
    names.get? "pi" = none ∧ evaluateNumber "2 * pi" = .ok turn ∧
      compile names .standard "2 * pi" =
        .ok (.generator (.loose [.color ⟨turn, turn, turn, 1⟩]) .color ⟨1, 1⟩) ∧
      evaluate .numeric division = .error .divisionByZero ∧
      evaluate (.graph names .standard) division = .error .divisionByZero := by
  intro names division turn
  have unbound : names.get? "pi" = none := by decide
  have computed : evaluateNumber "2 * pi" = .ok turn := by decide +kernel
  have divided : evaluate .numeric division = .error .divisionByZero := by
    have zero : ((0 : Float) == 0) = true := by decide +kernel
    simp [division, evaluate, applyOperator, Value.number?, Operator.arithmetic?, zero, bind,
      Except.bind]
  have repeats := graph_repeats_numbers Defaults.standard unbound
  exact ⟨unbound, computed, (repeats.2.2 _ _ computed).1, divided,
    repeats.2.1 _ _ divided rfl⟩

end ImageGraph
