import ImageGraph.Evaluation
import ImageGraph.Proofs.Parts

/-!
How calls are evaluated. In the scope of the graph a call is examined in a fixed order: which
function it names, whether it has as many arguments as the function takes, and only then what the
arguments are. There is one equation for each way in which that can end. The effects share one, since
all of them evaluate their arguments as images and differ only in how many they take.
-/

set_option autoImplicit false

namespace ImageGraph

namespace Expr

/-- Induction on expressions, with the items of an array and the arguments of a call taken
together. -/
theorem by_operands {property : Expr → Prop} (number : ∀ value span, property (.number value span))
    (identifier : ∀ name span, property (.identifier name span))
    (resolution : ∀ width height span, property (.resolution width height span))
    (array : ∀ items span, (∀ item ∈ items, property item) → property (.array items span))
    (call : ∀ function arguments span, (∀ argument ∈ arguments, property argument) →
      property (.call function arguments span))
    (negation : ∀ operand span, property operand → property (.negation operand span))
    (binary : ∀ operator first second span, property first → property second →
      property (.binary operator first second span))
    (expression : Expr) : property expression := by
  have below := fun operand (_ : sizeOf operand < sizeOf expression) =>
    by_operands number identifier resolution array call negation binary operand
  match expression with
  | .number value span => exact number value span
  | .identifier name span => exact identifier name span
  | .resolution width height span => exact resolution width height span
  | .array items span =>
      refine array items span fun item member => below item ?_
      have smaller := List.sizeOf_lt_of_mem member
      simp only [Expr.array.sizeOf_spec]
      omega
  | .call function arguments span =>
      refine call function arguments span fun argument member => below argument ?_
      have smaller := List.sizeOf_lt_of_mem member
      simp only [Expr.call.sizeOf_spec]
      omega
  | .negation operand span =>
      apply negation operand span
      apply below operand
      simp only [Expr.negation.sizeOf_spec]
      omega
  | .binary operator first second span =>
      apply binary operator first second span
      · apply below first
        simp only [Expr.binary.sizeOf_spec]
        omega
      · apply below second
        simp only [Expr.binary.sizeOf_spec]
        omega
termination_by sizeOf expression

end Expr

theorem bind_eq_ok {First Result : Type} {first : Except Error First}
    {next : First → Except Error Result} {result : Result}
    (succeeds : (first >>= next) = .ok result) :
    ∃ value, first = .ok value ∧ next value = .ok result := by
  cases first with
  | ok value => exact ⟨value, rfl, succeeds⟩
  | error error => cases succeeds

theorem ok_of_option {Failure Result : Type} {computed : Except Failure Result} {result : Result}
    (isResult : computed.toOption = some result) : computed = .ok result := by
  cases computed with
  | error failure => cases isResult
  | ok other =>
      cases isResult
      rfl

variable {names : Registry} {defaults : Defaults} {function : String} {span : Span}

/-- The resolution that the argument of a generator gives. The argument is evaluated only if it is
neither a written resolution nor a name that stands for no image. -/
def resolutionOf (names : Registry) (defaults : Defaults) (source : Generator) (argument : Expr) :
    Except Error Resolution :=
  match writtenResolution? names defaults argument with
  | some written => written
  | none => do computedResolution source (← evaluate (.graph names defaults) argument)

theorem evaluate_generator {source : Generator} (argument : Expr)
    (found : Constructor.named? function = some (.image (.generator source))) :
    evaluate (.graph names defaults) (.call function [argument] span) = (do
      let resolution ← resolutionOf names defaults source argument
      pure (.image (.ofGenerator source resolution))) := by
  rw [evaluate.eq_def]
  simp only [found, resolutionOf]
  cases writtenResolution? names defaults argument with
  | some written => rfl
  | none => simp only [bind_assoc]

theorem evaluate_effect {kind : Kind} {arguments : List Expr}
    (found : Constructor.named? function = some (.image kind))
    (effect : ∀ source, kind ≠ .generator source)
    (accepted : kind.arity.accepts arguments.length = true) :
    evaluate (.graph names defaults) (.call function arguments span) = (do
      let images ← evaluateImages (.graph names defaults) defaults arguments
      match Image.ofKind? kind none images with
      | some image => pure (.image image)
      | none => .error (.argumentCount kind.name kind.arity images.length)) := by
  rcases kind with source | kind | kind | kind
  · exact absurd rfl (effect source)
  · obtain ⟨argument, rfl⟩ := List.length_eq_one_iff.1 (eq_of_beq accepted)
    rw [evaluate.eq_def]
    simp only [found, evaluateImages, bind_assoc, pure_bind]
    rfl
  · obtain ⟨first, second, rfl⟩ : ∃ first second, arguments = [first, second] := by
      simpa [Kind.arity, Arity.accepts, List.length_eq_two] using accepted
    rw [evaluate.eq_def]
    simp only [found, evaluateImages, bind_assoc, pure_bind]
    rfl
  · rcases arguments with _ | ⟨first, others⟩
    · cases accepted
    · rw [evaluate.eq_def]
      simp only [found, evaluateImages, bind_assoc, pure_bind]
      rfl

theorem evaluate_color {color : ColorFunction} {arguments : List Expr}
    (found : Constructor.named? function = some (.color color))
    (accepted : color.arity.accepts arguments.length = true) :
    evaluate (.graph names defaults) (.call function arguments span) = (do
      let channels ← evaluateNumbers (.graph names defaults) (.colorArgument color) arguments
      match color.shade? channels with
      | some shade => pure (.color shade)
      | none => .error (.argumentCount color.name color.arity channels.length)) := by
  rw [evaluate.eq_def]
  simp only [found]
  exact if_pos accepted

theorem evaluate_math {math : MathFunction} {arguments : List Expr}
    (other : Constructor.named? function = none)
    (found : MathFunction.named? function = some math)
    (accepted : math.arity.accepts arguments.length = true) :
    evaluate (.graph names defaults) (.call function arguments span) = (do
      let numbers ← evaluateNumbers (.graph names defaults) (.mathArgument function) arguments
      match math.value? numbers with
      | some result => (finite result).map .number
      | none => .error (.argumentCount function math.arity numbers.length)) := by
  rw [evaluate.eq_def]
  simp only [other, found]
  exact if_pos accepted

theorem evaluate_wrong_count {constructor : Constructor} {arguments : List Expr}
    (found : Constructor.named? function = some constructor)
    (refused : constructor.arity.accepts arguments.length = false) :
    evaluate (.graph names defaults) (.call function arguments span) =
      .error (.argumentCount constructor.name constructor.arity arguments.length) := by
  rw [evaluate.eq_def]
  simp only [found]
  split
  · simp [Constructor.arity, Kind.arity, Arity.accepts] at refused
  · simp [Constructor.arity, Kind.arity, Arity.accepts] at refused
  · simp [Constructor.arity, Kind.arity, Arity.accepts] at refused
  · simp [Constructor.arity, Kind.arity, Arity.accepts] at refused
  · rw [if_neg (by simpa [Constructor.arity] using refused)]
    rfl
  · rfl

theorem evaluate_math_wrong_count {math : MathFunction} {arguments : List Expr}
    (other : Constructor.named? function = none)
    (found : MathFunction.named? function = some math)
    (refused : math.arity.accepts arguments.length = false) :
    evaluate (.graph names defaults) (.call function arguments span) =
      .error (.argumentCount function math.arity arguments.length) := by
  rw [evaluate.eq_def]
  simp [other, found, refused]

theorem evaluate_unknown {arguments : List Expr}
    (other : Constructor.named? function = none)
    (unknown : MathFunction.named? function = none) :
    evaluate (.graph names defaults) (.call function arguments span) =
      .error (Scope.unknownFunction (.graph names defaults) function) := by
  rw [evaluate.eq_def]
  simp [other, unknown]

/-- The functions that a scope has besides the numeric ones. -/
def Scope.constructor? : Scope → String → Option Constructor
  | numeric, _ => none
  | graph _ _, function => Constructor.named? function

/-- A call of a numeric function. Arguments are counted before any of them is evaluated. -/
def evaluateMath (scope : Scope) (function : String) (arguments : List Expr) :
    Except Error Value :=
  match MathFunction.named? function with
  | none => .error (scope.unknownFunction function)
  | some math =>
      if math.arity.accepts arguments.length then do
        let numbers ← evaluateNumbers scope (.mathArgument function) arguments
        match math.value? numbers with
        | some result => (finite result).map .number
        | none => .error (.argumentCount function math.arity numbers.length)
      else .error (.argumentCount function math.arity arguments.length)

theorem evaluate_plain_call (scope : Scope) {function : String} {arguments : List Expr} {span : Span}
    (plain : scope.constructor? function = none) :
    evaluate scope (.call function arguments span) = evaluateMath scope function arguments := by
  cases scope with
  | numeric => exact evaluate.eq_def .numeric (.call function arguments span)
  | graph names defaults =>
      unfold evaluateMath
      cases named : MathFunction.named? function with
      | none => exact evaluate_unknown plain named
      | some math =>
          simp only
          cases accepted : math.arity.accepts arguments.length with
          | true => exact evaluate_math plain named accepted
          | false => exact evaluate_math_wrong_count plain named accepted

theorem evaluate_numbers_eq (scope : Scope) (complaint : Found → Complaint) (items : List Expr) :
    evaluateNumbers scope complaint items =
      items.mapM fun item => evaluate scope item >>= Value.asNumber complaint := by
  induction items with
  | nil => rfl
  | cons item items induction => rw [evaluateNumbers, induction, List.mapM_cons, bind_assoc]

theorem evaluate_images_eq (scope : Scope) (defaults : Defaults) (arguments : List Expr) :
    evaluateImages scope defaults arguments =
      arguments.mapM fun argument => evaluate scope argument >>= Value.toImage defaults := by
  induction arguments with
  | nil => rfl
  | cons argument arguments induction =>
      rw [evaluateImages, induction, List.mapM_cons, bind_assoc]

theorem Image.of_kind_effect {kind : Kind} {images : List Image}
    (effect : ∀ source, kind ≠ .generator source)
    (accepted : kind.arity.accepts images.length = true) :
    ∃ image, Image.ofKind? kind none images = some image ∧ image.kind = kind ∧
      image.inputs = images ∧ image.home = Image.newHome kind := by
  rcases kind with source | kind | kind | kind
  · exact absurd rfl (effect source)
  · obtain ⟨input, rfl⟩ := List.length_eq_one_iff.1 (eq_of_beq accepted)
    exact ⟨_, rfl, rfl, rfl, rfl⟩
  · obtain ⟨first, second, rfl⟩ : ∃ first second, images = [first, second] := by
      simpa [Kind.arity, Arity.accepts, List.length_eq_two] using accepted
    exact ⟨_, rfl, rfl, rfl, rfl⟩
  · rcases images with _ | ⟨first, others⟩
    · cases accepted
    · exact ⟨_, rfl, rfl, rfl, rfl⟩

theorem evaluate_images_length {scope : Scope} {arguments : List Expr} {images : List Image}
    (evaluated : evaluateImages scope defaults arguments = .ok images) :
    images.length = arguments.length := by
  induction arguments generalizing images with
  | nil =>
      rw [evaluateImages] at evaluated
      cases evaluated
      rfl
  | cons argument arguments induction =>
      rw [evaluateImages] at evaluated
      obtain ⟨_, _, evaluated⟩ := bind_eq_ok evaluated
      obtain ⟨_, _, evaluated⟩ := bind_eq_ok evaluated
      obtain ⟨_, tailEvaluated, evaluated⟩ := bind_eq_ok evaluated
      cases evaluated
      simp [induction tailEvaluated]

theorem Value.to_image_cases {value : Value} {image : Image}
    (serves : value.toImage defaults = .ok image) :
    value = .image image ∨ ∃ shade, image = .ofColor defaults shade := by
  unfold toImage at serves
  rcases stands : value.pictorial with error | shade | picture
  · rw [stands] at serves
    cases serves
  · rw [stands] at serves
    cases serves
    exact .inr ⟨shade, rfl⟩
  · rw [stands] at serves
    cases serves
    unfold pictorial at stands
    split at stands <;> cases stands
    exact .inl rfl

theorem Value.eq_of_number {value : Value} {number : Float}
    (isNumber : value.number? = some number) : value = .number number := by
  cases value with
  | number level =>
      cases isNumber
      rfl
  | _ => cases isNumber

end ImageGraph
