import ImageGraph.Proofs.Known
import ImageGraph.Proofs.Mentions
import ImageGraph.Proofs.Yielding

/-!
Where stored images enter what an expression describes. Read from the left, and not followed into
images that were stored before, the description has exactly the images of the identifiers that are
bound, one for each identifier and in the order of the text. All else in it is new.
-/

set_option autoImplicit false

namespace ImageGraph

def Home.isStored : Home → Bool
  | stored _ => true
  | loose _ => false

namespace Image

mutual

/-- The uppermost parts of an image that have an old home, from left to right. -/
def entries (old : Home → Bool) : Image → List Image
  | generator home kind resolution => if old home then [generator home kind resolution] else []
  | filter home kind input => if old home then [filter home kind input] else entries old input
  | merger home kind first second =>
      if old home then [merger home kind first second] else entries old first ++ entries old second
  | collage home kind first others =>
      if old home then [collage home kind first others]
      else entries old first ++ entriesAll old others

def entriesAll (old : Home → Bool) : List Image → List Image
  | [] => []
  | image :: images => entries old image ++ entriesAll old images

end

theorem entries_all_eq (old : Home → Bool) (images : List Image) :
    entriesAll old images = images.flatMap (entries old) := by
  induction images with
  | nil => rfl
  | cons image images induction => rw [entriesAll, induction, List.flatMap_cons]

theorem entries_eq (old : Home → Bool) (image : Image) :
    image.entries old = if old image.home then [image] else image.inputs.flatMap (entries old) := by
  cases image <;> simp [entries, home, inputs, entries_all_eq]

theorem entries_old {old : Home → Bool} {image : Image} (isOld : old image.home = true) :
    image.entries old = [image] := by
  rw [entries_eq, if_pos isOld]

theorem entries_new {old : Home → Bool} {image : Image} (isNew : old image.home = false) :
    image.entries old = image.inputs.flatMap (entries old) := by
  rw [entries_eq, isNew]
  exact if_neg Bool.false_ne_true

theorem entries_loose {image : Image} {settings : Settings} (loose : image.home = .loose settings) :
    image.entries Home.isStored = image.inputs.flatMap (entries Home.isStored) :=
  entries_new (by rw [loose]; rfl)

theorem entries_combine (operator : Operator) (first second : Image) :
    (operator.combine first second).entries Home.isStored =
      first.entries Home.isStored ++ second.entries Home.isStored := by
  cases operator <;> rfl

end Image

def Value.entries : Value → List Image
  | image picture => picture.entries Home.isStored
  | _ => []

theorem Value.entries_to_image {defaults : Defaults} {value : Value} {image : Image}
    (serves : value.toImage defaults = .ok image) : image.entries Home.isStored = value.entries := by
  cases value with
  | image picture =>
      cases serves
      rfl
  | _ =>
      rcases Value.to_image_cases serves with isImage | ⟨shade, rfl⟩
      · cases isImage
      · rfl

def Registry.IsStored (names : Registry) : Prop :=
  ∀ name image, names.get? name = some image → image.home.isStored = true

variable {names : Registry} {defaults : Defaults}

namespace Expr

/-- The images of the identifiers that are bound, from left to right. -/
def bindings (names : Registry) (expression : Expr) : List Image :=
  expression.identifiers.filterMap names.get?

/-- The stored images that enter the value are those of the identifiers. -/
def Enters (names : Registry) (defaults : Defaults) (expression : Expr) : Prop :=
  ∀ value, evaluate (.graph names defaults) expression = .ok value →
    value.entries = expression.bindings names

theorem bindings_of_operands {expression : Expr} (unnamed : expression.name? = none) :
    expression.bindings names = expression.operands.flatMap (bindings names) := by
  rw [bindings, identifiers_eq, unnamed, Option.toList_none, List.nil_append, List.filterMap_flatMap]
  rfl

/-- Operands that are numbers mention no image. -/
theorem numbers_enter {complaint : Found → Complaint} {operands : List Expr} {numbers : List Float}
    (each : ∀ operand ∈ operands, operand.Enters names defaults)
    (evaluated : evaluateNumbers (.graph names defaults) complaint operands = .ok numbers) :
    operands.flatMap (bindings names) = [] := by
  replace evaluated := numbers_computed evaluated
  induction evaluated with
  | nil => rfl
  | cons head tail induction =>
      rw [List.forall_mem_cons] at each
      rw [List.flatMap_cons, ← each.1 _ head]
      exact induction each.2

theorem images_enter {operands : List Expr} {images : List Image}
    (each : ∀ operand ∈ operands, operand.Enters names defaults)
    (evaluated : evaluateImages (.graph names defaults) defaults operands = .ok images) :
    images.flatMap (Image.entries Home.isStored) = operands.flatMap (bindings names) := by
  induction operands generalizing images with
  | nil =>
      rw [evaluateImages] at evaluated
      cases evaluated
      rfl
  | cons operand operands induction =>
      rw [evaluateImages] at evaluated
      obtain ⟨value, headEvaluated, evaluated⟩ := bind_eq_ok evaluated
      obtain ⟨image, serves, evaluated⟩ := bind_eq_ok evaluated
      obtain ⟨others, tailEvaluated, evaluated⟩ := bind_eq_ok evaluated
      cases evaluated
      rw [List.forall_mem_cons] at each
      rw [List.flatMap_cons, List.flatMap_cons, Value.entries_to_image serves, each.1 _ headEvaluated,
        induction each.2 tailEvaluated]

theorem bindings_of_identifier (names : Registry) (name : String) (span : Span) :
    (identifier name span).bindings names = (names.get? name).toList := by
  rw [bindings, identifiers_eq]
  cases bound : names.get? name <;> simp [name?, operands, bound]

/-- A name that is taken for a resolution is not that of an image. -/
theorem bindings_of_written {argument : Expr} {written : Except Error Resolution}
    (isWritten : writtenResolution? names defaults argument = some written) :
    argument.bindings names = [] := by
  cases argument with
  | resolution width height span => rfl
  | identifier name span =>
      simp only [writtenResolution?] at isWritten
      split at isWritten
      · cases isWritten
      · rename_i unbound
        have absent : names.get? name = none := by simpa [Registry.contains] using unbound
        rw [bindings_of_identifier, absent]
        rfl
  | _ => cases isWritten

theorem resolution_enters {source : Generator} {argument : Expr} {resolution : Resolution}
    (enters : argument.Enters names defaults)
    (given : resolutionOf names defaults source argument = .ok resolution) :
    argument.bindings names = [] := by
  unfold resolutionOf at given
  split at given
  · rename_i written isWritten
    exact bindings_of_written isWritten
  · obtain ⟨side, evaluated, computed⟩ := bind_eq_ok given
    obtain ⟨number, isNumber, -⟩ := bind_eq_ok computed
    obtain rfl := number_of_as_number isNumber
    exact (enters _ evaluated).symm

/-- What enters the value of an expression are the images of its identifiers. -/
theorem enters (stored : names.IsStored) (expression : Expr) : expression.Enters names defaults := by
  induction expression using by_operands with
  | number value span =>
      intro result evaluated
      cases evaluate_yields evaluated
      rfl
  | identifier name span =>
      intro value evaluated
      rw [bindings_of_identifier]
      cases evaluate_yields evaluated with
      | named span graph bound =>
          cases graph
          rw [Value.entries, bound, Image.entries_old (stored name _ bound)]
          rfl
      | pi span unbound =>
          rw [unbound names defaults rfl]
          rfl
  | resolution width height span =>
      intro value evaluated
      cases evaluate_yields evaluated
  | array items span each =>
      intro value evaluated
      rw [bindings_of_operands rfl, operands]
      cases evaluate_yields evaluated with
      | array span computed =>
          rw [numbers_enter each computed]
          rfl
  | call function arguments span each =>
      intro value evaluated
      rw [bindings_of_operands rfl, operands]
      cases evaluate_yields evaluated with
      | math span plain named computed applied bounded =>
          rw [numbers_enter each computed]
          rfl
      | color span makes computed applied =>
          rw [numbers_enter each computed]
          rfl
      | @generator _ _ _ _ argument _ span graph makes given =>
          cases graph
          rw [List.flatMap_singleton, resolution_enters (each argument List.mem_cons_self) given]
          rfl
      | effect span graph makes effect new computed =>
          cases graph
          rw [Value.entries, Image.entries_loose new]
          exact images_enter each computed
  | negation operand span enters =>
      intro value evaluated
      rw [bindings_of_operands rfl, operands, List.flatMap_singleton]
      cases evaluate_yields evaluated with
      | negation span computed =>
          rw [← enters _ computed]
          rfl
  | binary operator first second span left right =>
      intro value evaluated
      rw [bindings_of_operands rfl, operands, List.flatMap_cons, List.flatMap_singleton]
      cases evaluate_yields evaluated with
      | arithmetic span firstEvaluated secondEvaluated computed bounded =>
          rw [← left _ firstEvaluated, ← right _ secondEvaluated]
          rfl
      | combination span graph firstEvaluated secondEvaluated firstServes secondServes =>
          cases graph
          rw [← left _ firstEvaluated, ← right _ secondEvaluated,
            ← Value.entries_to_image firstServes, ← Value.entries_to_image secondServes]
          exact Image.entries_combine operator _ _

end Expr

end ImageGraph
