import ImageGraph.Proofs.Spans
import Mathlib.Data.List.Forall2

/-!
Evaluation and homes. An expression never looks at where an image is stored, so a change of homes that
leaves loose images loose may be made before or after the evaluation. This is stated for two
expressions, each in a scope of its own, because the same step serves for one expression in two scopes
and for two expressions in one scope.
-/

set_option autoImplicit false

namespace ImageGraph

/-- A change of homes that concerns stored images only. -/
def Home.KeepsLoose (change : Home → Home) : Prop :=
  ∀ settings, change (.loose settings) = .loose settings

namespace Image

variable {change : Home → Home}

@[simp] theorem kind_map_homes (change : Home → Home) (image : Image) :
    (image.mapHomes change).kind = image.kind := by
  cases image <;> rfl

theorem map_homes_of_kind (fresh : Home.KeepsLoose change) (kind : Kind) (inputs : List Image) :
    ofKind? kind none (inputs.map (mapHomes change)) =
      (ofKind? kind none inputs).map (mapHomes change) := by
  rcases kind with source | kind | kind | kind
  · rfl
  · rcases inputs with _ | ⟨input, _ | ⟨second, others⟩⟩
    · rfl
    · simp [ofKind?, ofFilter, mapHomes, newHome, fresh _]
    · rfl
  · rcases inputs with _ | ⟨first, _ | ⟨second, _ | ⟨third, others⟩⟩⟩
    · rfl
    · rfl
    · simp [ofKind?, ofMerger, mapHomes, newHome, fresh _]
    · rfl
  · rcases inputs with _ | ⟨first, others⟩
    · rfl
    · simp [ofKind?, ofCollage, mapHomes, newHome, fresh _, map_all_homes_eq]

theorem map_homes_of_generator (fresh : Home.KeepsLoose change) (source : Generator)
    (resolution : Resolution) :
    (ofGenerator source resolution).mapHomes change = ofGenerator source resolution := by
  simp [ofGenerator, newHome, mapHomes, fresh _]

theorem map_homes_of_color (fresh : Home.KeepsLoose change) (defaults : Defaults) (shade : Color) :
    (ofColor defaults shade).mapHomes change = ofColor defaults shade := by
  simp [ofColor, ofGenerator, withValue, newHome, home, moveTo, mapHomes, fresh _]

theorem map_homes_combine (fresh : Home.KeepsLoose change) (operator : Operator)
    (first second : Image) :
    (operator.combine first second).mapHomes change =
      operator.combine (first.mapHomes change) (second.mapHomes change) := by
  cases operator <;>
    simp [Operator.combine, ofMerger, withValue, newHome, home, moveTo, kind, mapHomes, fresh _]

end Image

namespace Value

def mapHomes (change : Home → Home) : Value → Value
  | image picture => image (picture.mapHomes change)
  | other => other

variable {change : Home → Home}

@[simp] theorem map_homes_image (change : Home → Home) (picture : Image) :
    (image picture).mapHomes change = image (picture.mapHomes change) := rfl

@[simp] theorem found_map_homes (value : Value) : (value.mapHomes change).found = value.found := by
  cases value <;> simp [mapHomes, found]

@[simp] theorem number_map_homes (value : Value) :
    (value.mapHomes change).number? = value.number? := by
  cases value <;> rfl

@[simp] theorem as_number_map_homes (complaint : Found → Complaint) (value : Value) :
    (value.mapHomes change).asNumber complaint = value.asNumber complaint := by
  simp only [asNumber, number_map_homes, found_map_homes]

theorem map_homes_finite (change : Home → Home) (result : Float) :
    mapHomes change <$> (finite result).map number = (finite result).map number := by
  cases finite result <;> rfl

theorem pictorial_numbers (items : List Float) (picture : Image) :
    (numbers items).pictorial ≠ .ok (.image picture) := by
  unfold pictorial
  split <;> simp_all

theorem to_image_map_homes (fresh : Home.KeepsLoose change) {defaults changed : Defaults}
    (constant : changed.constant = defaults.constant) (value : Value) :
    (value.mapHomes change).toImage changed =
      Image.mapHomes change <$> value.toImage defaults := by
  have colored (shade : Color) :
      Image.ofColor changed shade = (Image.ofColor defaults shade).mapHomes change := by
    rw [Image.map_homes_of_color fresh, Image.ofColor, Image.ofColor, constant]
  unfold toImage
  cases value with
  | image picture => rfl
  | number level => exact congrArg Except.ok (colored _)
  | color shade => exact congrArg Except.ok (colored _)
  | numbers items =>
      simp only [mapHomes]
      rcases stands : (numbers items).pictorial with error | shade | picture
      · rfl
      · exact congrArg Except.ok (colored shade)
      · exact absurd stands (pictorial_numbers items picture)

end Value

def Expr.describe (names : Registry) (defaults : Defaults) (expression : Expr) :
    Except Error Image := do
  (← evaluate (.graph names defaults) expression).toImage defaults

theorem described_iff {names : Registry} {defaults : Defaults} {expression : Expr} {image : Image} :
    expression.describe names defaults = .ok image ↔
      ∃ value, evaluate (.graph names defaults) expression = .ok value ∧
        value.toImage defaults = .ok image := by
  constructor
  · exact bind_eq_ok
  · rintro ⟨value, evaluated, serves⟩
    rw [Expr.describe, evaluated]
    exact serves

theorem compile_parsed {names : Registry} {defaults : Defaults} {text : String} {result : Expr}
    (parsed : parse text = .ok result) :
    compile names defaults text = result.describe names defaults := by
  rw [compile, parsed]
  rfl

/-- A text is compiled to what is described by any expression that it is read as, spans aside. -/
theorem compile_of_bare {names : Registry} {defaults : Defaults} {text : String}
    {result expression : Expr} (parsed : parse text = .ok result)
    (same : result.bare = expression.bare) :
    compile names defaults text = expression.describe names defaults := by
  rw [compile_parsed parsed, Expr.describe, Expr.describe, ← evaluate_bare, same, evaluate_bare]

/-- Two expressions, each in its own scope, have the same value but for a change of homes. -/
def Corresponds (change : Home → Home) (scope other : Scope) (expression again : Expr) : Prop :=
  evaluate other again = Value.mapHomes change <$> evaluate scope expression

section Evaluation

variable {change : Home → Home} {names other : Registry} {defaults changed : Defaults}
  {arguments others : List Expr}

theorem bind_of_map {First Result : Type} (update : First → First) (first : Except Error First)
    (next : First → Except Error Result) :
    (update <$> first) >>= next = first >>= fun value => next (update value) := by
  cases first <;> rfl

theorem numbers_correspond
    (values : List.Forall₂ (Corresponds change (.graph names defaults) (.graph other changed))
      arguments others) (complaint : Found → Complaint) :
    evaluateNumbers (.graph other changed) complaint others =
      evaluateNumbers (.graph names defaults) complaint arguments := by
  induction values with
  | nil => rfl
  | cons head tail induction =>
      rw [evaluateNumbers, evaluateNumbers, induction, head, bind_of_map]
      simp only [Value.as_number_map_homes]

theorem images_correspond (fresh : Home.KeepsLoose change)
    (constant : changed.constant = defaults.constant)
    (values : List.Forall₂ (Corresponds change (.graph names defaults) (.graph other changed))
      arguments others) :
    evaluateImages (.graph other changed) changed others =
      List.map (Image.mapHomes change) <$>
        evaluateImages (.graph names defaults) defaults arguments := by
  induction values with
  | nil => rfl
  | cons head tail induction =>
      rw [evaluateImages, evaluateImages, induction, head, bind_of_map]
      simp only [Value.to_image_map_homes fresh constant, bind_of_map, map_bind, map_pure,
        List.map_cons]

theorem operator_corresponds (names other : Registry) (fresh : Home.KeepsLoose change)
    (constant : changed.constant = defaults.constant) (operator : Operator)
    (first second : Value) :
    applyOperator (.graph other changed) operator (first.mapHomes change)
        (second.mapHomes change) =
      Value.mapHomes change <$> applyOperator (.graph names defaults) operator first second := by
  have combined : applyOperator.combine (.graph other changed) operator (first.mapHomes change)
      (second.mapHomes change) = Value.mapHomes change <$>
        applyOperator.combine (.graph names defaults) operator first second := by
    unfold applyOperator.combine
    simp only [Value.to_image_map_homes fresh constant, bind_of_map, map_bind, map_pure,
      Value.map_homes_image, Image.map_homes_combine fresh]
  unfold applyOperator
  simp only [Value.number_map_homes]
  split
  · split
    · split
      · rfl
      · exact (Value.map_homes_finite change _).symm
    · exact combined
  · exact combined

theorem resolution_corresponds {argument again : Expr} {source : Generator}
    (value : Corresponds change (.graph names defaults) (.graph other changed) argument again)
    (written :
      writtenResolution? other changed again = writtenResolution? names defaults argument) :
    resolutionOf other changed source again = resolutionOf names defaults source argument := by
  unfold resolutionOf computedResolution
  rw [written, value, bind_of_map]
  simp only [Value.as_number_map_homes]

/-- Expressions that correspond describe images that do. -/
theorem described_correspond (fresh : Home.KeepsLoose change)
    (constant : changed.constant = defaults.constant) {expression again : Expr}
    (value : Corresponds change (.graph names defaults) (.graph other changed) expression again) :
    again.describe other changed = Image.mapHomes change <$> expression.describe names defaults := by
  rw [Expr.describe, Expr.describe, value, bind_of_map, map_bind]
  simp only [Value.to_image_map_homes fresh constant]

variable {function : String} {span place : Span}

/-- A call reads its arguments by their values, and a generator also by how its argument is
written. -/
theorem call_corresponds (fresh : Home.KeepsLoose change)
    (constant : changed.constant = defaults.constant)
    (values : List.Forall₂ (Corresponds change (.graph names defaults) (.graph other changed))
      arguments others)
    (written : ∀ source, Constructor.named? function = some (.image (.generator source)) →
      List.Forall₂ (fun argument again =>
        writtenResolution? other changed again = writtenResolution? names defaults argument)
        arguments others) :
    Corresponds change (.graph names defaults) (.graph other changed)
      (.call function arguments span) (.call function others place) := by
  have count := values.length_eq
  unfold Corresponds
  rcases found : Constructor.named? function with _ | constructor
  · rcases mathFound : MathFunction.named? function with _ | math
    · rw [evaluate_unknown found mathFound, evaluate_unknown found mathFound]
      rfl
    · cases accepted : math.arity.accepts arguments.length with
      | false =>
          rw [evaluate_math_wrong_count found mathFound accepted,
            evaluate_math_wrong_count found mathFound (count ▸ accepted), count]
          rfl
      | true =>
          rw [evaluate_math found mathFound accepted,
            evaluate_math found mathFound (count ▸ accepted), numbers_correspond values, map_bind]
          refine congrArg _ (funext fun numbers => ?_)
          cases math.value? numbers with
          | none => rfl
          | some result => exact (Value.map_homes_finite change result).symm
  cases accepted : constructor.arity.accepts arguments.length with
  | false =>
      rw [evaluate_wrong_count found accepted, evaluate_wrong_count found (count ▸ accepted), count]
      rfl
  | true =>
      rcases constructor with kind | color
      · by_cases generator : ∃ source, kind = .generator source
        · obtain ⟨source, rfl⟩ := generator
          obtain ⟨argument, rfl⟩ := List.length_eq_one_iff.1 (eq_of_beq accepted)
          obtain ⟨again, rfl⟩ := List.length_eq_one_iff.1 count.symm
          have sameWritten := written source found
          simp only [List.forall₂_cons, List.Forall₂.nil, and_true] at values sameWritten
          rw [evaluate_generator _ found, evaluate_generator _ found,
            resolution_corresponds values sameWritten, map_bind]
          simp only [map_pure, Value.map_homes_image, Image.map_homes_of_generator fresh]
        · have effect : ∀ source, kind ≠ .generator source :=
            fun source equal => generator ⟨source, equal⟩
          rw [evaluate_effect found effect accepted,
            evaluate_effect found effect (count ▸ accepted), images_correspond fresh constant values,
            bind_of_map, map_bind]
          refine congrArg _ (funext fun images => ?_)
          rw [Image.map_homes_of_kind fresh, List.length_map]
          cases Image.ofKind? kind none images <;> rfl
      · rw [evaluate_color found accepted, evaluate_color found (count ▸ accepted),
          numbers_correspond values, map_bind]
        refine congrArg _ (funext fun channels => ?_)
        cases color.shade? channels <;> rfl

theorem array_corresponds
    (values : List.Forall₂ (Corresponds change (.graph names defaults) (.graph other changed))
      arguments others) :
    Corresponds change (.graph names defaults) (.graph other changed) (.array arguments span)
      (.array others place) := by
  rw [Corresponds, evaluate, evaluate, numbers_correspond values, map_bind]
  rfl

theorem negation_corresponds {operand again : Expr}
    (value : Corresponds change (.graph names defaults) (.graph other changed) operand again) :
    Corresponds change (.graph names defaults) (.graph other changed) (.negation operand span)
      (.negation again place) := by
  rw [Corresponds, evaluate, evaluate, value, bind_of_map, map_bind]
  simp only [Value.as_number_map_homes, map_bind]
  rfl

theorem binary_corresponds (fresh : Home.KeepsLoose change)
    (constant : changed.constant = defaults.constant) (operator : Operator)
    {first second left right : Expr}
    (firstValue : Corresponds change (.graph names defaults) (.graph other changed) first left)
    (secondValue : Corresponds change (.graph names defaults) (.graph other changed) second right) :
    Corresponds change (.graph names defaults) (.graph other changed)
      (.binary operator first second span) (.binary operator left right place) := by
  rw [Corresponds, evaluate, evaluate, firstValue, secondValue, bind_of_map]
  simp only [bind_of_map, operator_corresponds names other fresh constant, map_bind]

end Evaluation

end ImageGraph
