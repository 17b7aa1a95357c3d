import ImageGraph.Proofs.Catalog
import ImageGraph.Proofs.Yielding

/-!
What an expression describes is made from known images. Its new parts are loose, their settings fit,
and a new generator has a resolution that is written, computed or configured; only the last of these
can fail to be positive.
-/

set_option autoImplicit false

namespace ImageGraph

namespace Resolution

theorem dimension_positive {part : Part} {text : String} {number : Nat}
    (read : dimension part text = .ok number) : 1 ≤ number := by
  unfold dimension at read
  split at read
  · rename_i found isSide
    cases read
    have within := (Option.filter_eq_some_iff.1 isSide).2
    simp only [Resolution.isSide, Bool.and_eq_true, decide_eq_true_eq] at within
    exact within.1
  · cases read

theorem of_halves_positive {width height : String} {resolution : Resolution}
    (read : ofHalves width height = .ok resolution) : resolution.Positive := by
  unfold ofHalves at read
  rcases columnsRead : dimension .width width with fault | columns
  · rw [columnsRead] at read
    cases read
  · rcases rowsRead : dimension .height height with fault | rows
    · rw [columnsRead, rowsRead] at read
      cases read
    · rw [columnsRead, rowsRead] at read
      cases read
      exact ⟨dimension_positive columnsRead, dimension_positive rowsRead⟩

theorem of_side_positive {side : Float} {resolution : Resolution}
    (read : ofSide side = .ok resolution) : resolution.Positive := by
  unfold ofSide at read
  split at read
  · rename_i number isSide
    cases read
    have within := (Option.filter_eq_some_iff.1 isSide).2
    simp only [Resolution.isSide, Bool.and_eq_true, decide_eq_true_eq] at within
    exact ⟨within.1, within.1⟩
  · cases read

theorem standard_positive : ∀ entry ∈ standard, entry.2.Positive := by
  unfold Positive
  decide

theorem named_positive {name : String} {resolution : Resolution}
    (named : named? name = some resolution) : resolution.Positive := by
  obtain ⟨before, after, listed, _⟩ := List.lookup_eq_some_iff.1 named
  exact standard_positive (name, resolution) (by simp [listed])

end Resolution

/-- A generator gets a resolution that is positive or configured. -/
theorem resolution_of_admitted {names : Registry} {defaults : Defaults} {source : Generator}
    {argument : Expr} {resolution : Resolution}
    (given : resolutionOf names defaults source argument = .ok resolution) :
    defaults.Admits resolution := by
  unfold resolutionOf at given
  split at given
  · rename_i written isWritten
    subst given
    cases argument with
    | resolution width height span =>
        simp only [writtenResolution?, Option.some.injEq] at isWritten
        rcases read : Resolution.ofHalves width height with fault | resolution
        · rw [read] at isWritten
          cases isWritten
        · rw [read] at isWritten
          cases isWritten
          exact .inl (Resolution.of_halves_positive read)
    | identifier name span =>
        simp only [writtenResolution?] at isWritten
        split at isWritten
        · cases isWritten
        split at isWritten
        · cases isWritten
          exact .inr (.inl rfl)
        split at isWritten
        · rename_i named
          cases isWritten
          exact .inl (Resolution.named_positive named)
        · cases isWritten
    | _ => cases isWritten
  · obtain ⟨side, _, computed⟩ := bind_eq_ok given
    obtain ⟨number, _, read⟩ := bind_eq_ok computed
    rcases found : Resolution.ofSide number with fault | resolution
    · rw [found] at read
      cases read
    · rw [found] at read
      cases read
      exact .inl (Resolution.of_side_positive found)

namespace Image

variable {defaults : Defaults} {catalog : Catalog}

theorem known_new {image : Image} (home : image.home = newHome image.kind)
    (admitted : ∀ resolution, image.resolution? = some resolution → defaults.Admits resolution)
    (inputs : ∀ input ∈ image.inputs, input.Known defaults catalog) :
    image.Known defaults catalog :=
  .loose home
    ⟨admitted, Settings.fit_initial image.kind, Settings.attained_initial image.kind⟩ inputs

theorem known_generator {source : Generator} {resolution : Resolution}
    (admitted : defaults.Admits resolution) :
    (ofGenerator source resolution).Known defaults catalog := by
  refine known_new rfl ?_ (by simp [ofGenerator, Image.inputs])
  intro other same
  cases same
  exact admitted

theorem known_effect {image : Image} (effect : ∀ source, image.kind ≠ .generator source)
    (new : image.home = newHome image.kind)
    (known : ∀ input ∈ image.inputs, input.Known defaults catalog) :
    image.Known defaults catalog := by
  refine known_new new ?_ known
  intro resolution isGenerator
  cases image with
  | generator home source _ => exact absurd rfl (effect source)
  | filter _ _ _ => cases isGenerator
  | merger _ _ _ _ => cases isGenerator
  | collage _ _ _ _ => cases isGenerator

theorem known_with_value {image : Image} {property : String} {value : Property.Value}
    (known : image.Known defaults catalog)
    (suits : ∀ declared, Settings.property? image.kind.properties property = some declared →
      value.fits declared.kind = true) (other : value.whole? = none) :
    (image.withValue property value).Known defaults catalog := by
  unfold withValue
  cases known with
  | stored listed home =>
      rw [home]
      exact .stored listed home
  | loose home wellMade inputs =>
      rw [home]
      refine .loose (home_move_to _ _) ⟨?_, ?_, ?_⟩ ?_
      · simpa using wellMade.admitted
      · simpa using Settings.fit_put wellMade.fit suits
      · exact Settings.attained_put wellMade.attained (Property.Value.attained_other other)
      · simpa using inputs

@[simp] theorem kind_with_value (image : Image) (property : String) (value : Property.Value) :
    (image.withValue property value).kind = image.kind := by
  unfold withValue
  split
  · rfl
  · exact kind_move_to _ _

theorem known_of_color (shade : Color) : (ofColor defaults shade).Known defaults catalog := by
  refine known_with_value (known_generator (.inr (.inr rfl))) ?_ rfl
  intro declared isDeclared
  cases isDeclared
  rfl

/-- Every operator sets properties that its merger has, to values that they can hold. -/
theorem known_combine (operator : Operator) {first second : Image}
    (firstKnown : first.Known defaults catalog) (secondKnown : second.Known defaults catalog) :
    (operator.combine first second).Known defaults catalog := by
  have merged (combination : Merger) :
      (ofMerger combination first second).Known defaults catalog := by
    refine known_effect (by simp [ofMerger, kind]) rfl ?_
    simpa [ofMerger, Image.inputs] using ⟨firstKnown, secondKnown⟩
  cases operator with
  | displace =>
      refine known_with_value (known_with_value (known_with_value (merged .displace) ?_ rfl) ?_ rfl)
        ?_ rfl
      all_goals
        intro declared isDeclared
        cases isDeclared
        decide
  | blend mode =>
      refine known_with_value (known_with_value (known_with_value (merged .blend) ?_ rfl) ?_ rfl)
        ?_ rfl
      · intro declared isDeclared
        cases isDeclared
        cases mode <;> decide
      all_goals
        simp only [kind_with_value]
        intro declared isDeclared
        cases isDeclared
        decide

end Image

def Value.Known (defaults : Defaults) (catalog : Catalog) : Value → Prop
  | .image picture => picture.Known defaults catalog
  | _ => True

def Registry.Known (defaults : Defaults) (catalog : Catalog) (names : Registry) : Prop :=
  ∀ name image, names.get? name = some image → image.Known defaults catalog

variable {names : Registry} {defaults : Defaults} {catalog : Catalog}

theorem Value.to_image_known {value : Value} {image : Image}
    (known : value.Known defaults catalog) (serves : value.toImage defaults = .ok image) :
    image.Known defaults catalog := by
  rcases to_image_cases serves with rfl | ⟨shade, rfl⟩
  · exact known
  · exact Image.known_of_color shade

def Expr.Describes (names : Registry) (defaults : Defaults) (catalog : Catalog)
    (expression : Expr) : Prop :=
  ∀ value, evaluate (.graph names defaults) expression = .ok value → value.Known defaults catalog

theorem evaluate_images_known {arguments : List Expr} {images : List Image}
    (each : ∀ argument ∈ arguments, argument.Describes names defaults catalog)
    (evaluated : evaluateImages (.graph names defaults) defaults arguments = .ok images) :
    ∀ image ∈ images, image.Known defaults catalog := by
  induction arguments generalizing images with
  | nil =>
      rw [evaluateImages] at evaluated
      cases evaluated
      simp
  | cons argument arguments induction =>
      rw [evaluateImages] at evaluated
      obtain ⟨value, headEvaluated, evaluated⟩ := bind_eq_ok evaluated
      obtain ⟨image, serves, evaluated⟩ := bind_eq_ok evaluated
      obtain ⟨others, tailEvaluated, evaluated⟩ := bind_eq_ok evaluated
      cases evaluated
      rw [List.forall_mem_cons] at each ⊢
      exact ⟨Value.to_image_known (each.1 value headEvaluated) serves,
        induction each.2 tailEvaluated⟩

/-- Where all names stand for known images, every expression describes a known one. -/
theorem Expr.describes_known (known : names.Known defaults catalog) (expression : Expr) :
    expression.Describes names defaults catalog := by
  induction expression using by_operands with
  | identifier name span =>
      intro value evaluated
      cases evaluate_yields evaluated with
      | pi => exact trivial
      | named span graph bound =>
          cases graph
          exact known name _ bound
  | call function arguments span each =>
      intro value evaluated
      cases evaluate_yields evaluated with
      | math => exact trivial
      | color => exact trivial
      | generator span graph makes given =>
          cases graph
          exact Image.known_generator (resolution_of_admitted given)
      | effect span graph makes effect new computed =>
          cases graph
          exact Image.known_effect effect new (evaluate_images_known each computed)
  | binary operator first second span left right =>
      intro value evaluated
      cases evaluate_yields evaluated with
      | arithmetic => exact trivial
      | combination span graph firstEvaluated secondEvaluated firstServes secondServes =>
          cases graph
          exact Image.known_combine operator
            (Value.to_image_known (left _ firstEvaluated) firstServes)
            (Value.to_image_known (right _ secondEvaluated) secondServes)
  | resolution width height span =>
      intro value evaluated
      cases evaluate_yields evaluated
  | _ =>
      intro value evaluated
      cases evaluate_yields evaluated
      exact trivial

theorem compile_known {text : String} {image : Image} (known : names.Known defaults catalog)
    (compiled : compile names defaults text = .ok image) : image.Known defaults catalog := by
  obtain ⟨expression, _, compiled⟩ := bind_eq_ok compiled
  obtain ⟨value, evaluated, serves⟩ := bind_eq_ok compiled
  exact Value.to_image_known (expression.describes_known known value evaluated) serves

end ImageGraph
