import ImageGraph.Proofs.Evaluation

/-!
The form of an expression: whether its value is a number, an array of numbers, a color or an image.
It is computed from the expression and from which names stand for images, before anything is
evaluated. Evaluation follows it in both directions. A value has the form of its expression, and an
expression that has a form can fail only over a number that does not do.
-/

set_option autoImplicit false

namespace ImageGraph

/-- What a value is, without which one. -/
inductive Form where
  | number
  | numbers (count : Nat)
  | color
  | image
  deriving DecidableEq, Repr

def Form.isPictorial : Form → Bool
  | .numbers count => decide (2 ≤ count ∧ count ≤ 4)
  | _ => true

def Value.form : Value → Form
  | .number _ => .number
  | .numbers items => .numbers items.length
  | .color _ => .color
  | .image _ => .image

def Operator.isArithmetic : Operator → Bool
  | .blend .add | .blend .subtract | .blend .multiply | .blend .divide | .blend .power => true
  | _ => false

def Operator.form? (operator : Operator) (first second : Form) : Option Form :=
  if first = .number ∧ second = .number ∧ operator.isArithmetic then some .number
  else if first.isPictorial ∧ second.isPictorial then some .image
  else none

/-- What an argument can say of the resolution of a generator: to write a resolution, to name one,
or to be a number. A name that stands for no image has to be that of a resolution. -/
def Expr.givesResolution (known : String → Bool) (form : Option Form) : Expr → Bool
  | .resolution _ _ _ => true
  | .identifier name _ =>
      !known name && (name = defaultResolutionName || (Resolution.named? name).isSome)
  | _ => form = some .number

/-- The form of a call, from those of its arguments. Functions that make images or colors are looked
up before numeric ones. -/
def Expr.callForm? (known : String → Bool) (function : String) (arguments : List Expr)
    (forms : List (Option Form)) : Option Form :=
  match Constructor.named? function with
  | some (.image (.generator _)) =>
      match arguments, forms with
      | [argument], [form] => if argument.givesResolution known form then some .image else none
      | _, _ => none
  | some (.image kind) =>
      if kind.arity.accepts arguments.length ∧ forms.all (·.any Form.isPictorial) then some .image
      else none
  | some (.color color) =>
      if color.arity.accepts arguments.length ∧ forms.all (· = some .number) then some .color
      else none
  | none =>
      match MathFunction.named? function with
      | some math =>
          if math.arity.accepts arguments.length ∧ forms.all (· = some .number) then some .number
          else none
      | none => none

mutual

/-- The form of an expression, if it has one. All that matters of the names is which of them stand
for images. -/
def Expr.form? (known : String → Bool) : Expr → Option Form
  | .number _ _ => some .number
  | .identifier name _ =>
      if known name then some .image else if name = "pi" then some .number else none
  | .resolution _ _ _ => none
  | .array items _ =>
      if (Expr.forms known items).all (· = some .number) then some (.numbers items.length) else none
  | .call function arguments _ =>
      Expr.callForm? known function arguments (Expr.forms known arguments)
  | .negation operand _ => if operand.form? known = some .number then some .number else none
  | .binary operator first second _ => do
      operator.form? (← first.form? known) (← second.form? known)

def Expr.forms (known : String → Bool) : List Expr → List (Option Form)
  | [] => []
  | expression :: expressions => expression.form? known :: Expr.forms known expressions

end

/-- Errors over a number that does not do. No form excludes them. -/
def Error.concernsNumber : Error → Bool
  | .divisionByZero | .notFinite | .resolution _ => true
  | _ => false

/-- A computation ends with a result as described, or with an error over a number, or with another
error under the condition for that. -/
def Follows {Result : Type} (computed : Except Error Result) (succeeds : Result → Prop)
    (fails : Prop) : Prop :=
  match computed with
  | .ok result => succeeds result
  | .error error => error.concernsNumber = true ∨ fails

namespace Follows

variable {First Result : Type} {stops fails : Prop}

/-- The condition for an error of the first step becomes that for an error of the whole. -/
theorem bind {first : Except Error First} {next : First → Except Error Result}
    {between : First → Prop} {succeeds : Result → Prop} (begins : Follows first between stops)
    (stopped : stops → fails)
    (continues : ∀ value, between value → Follows (next value) succeeds fails) :
    Follows (first >>= next) succeeds fails := by
  cases first with
  | ok value => exact continues value begins
  | error error => exact begins.imp_right stopped

theorem mono {computed : Except Error Result} {succeeds weaker : Result → Prop}
    (follows : Follows computed succeeds stops) (stopped : stops → fails)
    (results : ∀ result, succeeds result → weaker result) : Follows computed weaker fails := by
  cases computed with
  | ok result => exact results result follows
  | error error => exact follows.imp_right stopped

theorem finite (number : Float) :
    Follows ((ImageGraph.finite number).map .number) (fun value : Value => value.form = .number)
      fails := by
  unfold ImageGraph.finite
  split
  · exact rfl
  · exact .inl rfl

end Follows

def Expr.FollowsForm (names : Registry) (defaults : Defaults) (expression : Expr) : Prop :=
  Follows (evaluate (.graph names defaults) expression)
    (fun value => expression.form? names.contains = some value.form)
    (expression.form? names.contains = none)

variable {names : Registry} {defaults : Defaults}

theorem Value.as_number_follows (complaint : Found → Complaint) (value : Value) :
    Follows (value.asNumber complaint) (fun _ => value.form = .number) (value.form ≠ .number) := by
  cases value with
  | number value => exact rfl
  | numbers items => exact .inr (by simp [form])
  | color shade => exact .inr (by simp [form])
  | image picture => exact .inr (by simp [form])

theorem Value.to_image_follows (value : Value) :
    Follows (value.toImage defaults) (fun _ => value.form.isPictorial = true)
      (value.form.isPictorial = false) := by
  cases value with
  | number value => exact rfl
  | numbers items =>
      rcases items with _ | ⟨_, _ | ⟨_, _ | ⟨_, _ | ⟨_, _ | ⟨_, _⟩⟩⟩⟩⟩
      · exact .inr rfl
      · exact .inr rfl
      · exact rfl
      · exact rfl
      · exact rfl
      · exact .inr (by simp [form, Form.isPictorial])
  | color shade => exact rfl
  | image picture => exact rfl

theorem ColorFunction.shade_accepted (color : ColorFunction) {channels : List Float}
    (accepted : color.arity.accepts channels.length = true) :
    ∃ shade, color.shade? channels = some shade := by
  rcases channels with _ | ⟨_, _ | ⟨_, _ | ⟨_, _ | ⟨_, _ | ⟨_, _⟩⟩⟩⟩⟩ <;>
    cases color <;> simp_all [arity, Arity.accepts, shade?]

theorem MathFunction.value_accepted (math : MathFunction) {numbers : List Float}
    (accepted : math.arity.accepts numbers.length = true) :
    ∃ result, math.value? numbers = some result := by
  rcases numbers with _ | ⟨_, _ | ⟨_, _ | ⟨_, _⟩⟩⟩ <;>
    cases math <;> simp_all [arity, Arity.accepts, value?]

theorem Value.form_of_number {value : Value} {number : Float}
    (isNumber : value.number? = some number) : value.form = .number := by
  cases value with
  | number value => rfl
  | numbers items => cases isNumber
  | color shade => cases isNumber
  | image picture => cases isNumber

theorem Value.number_of_form {value : Value} (isNumber : value.form = .number) :
    ∃ number, value.number? = some number := by
  cases value with
  | number value => exact ⟨value, rfl⟩
  | numbers items => cases isNumber
  | color shade => cases isNumber
  | image picture => cases isNumber

theorem Operator.arithmetic_some (operator : Operator) (first second : Float) :
    (operator.arithmetic? first second).isSome = operator.isArithmetic := by
  rcases operator with mode | _
  · cases mode <;> rfl
  · rfl

theorem combine_follows (operator : Operator) (first second : Value) :
    Follows (applyOperator.combine (.graph names defaults) operator first second)
      (fun value => value.form = .image ∧
        first.form.isPictorial = true ∧ second.form.isPictorial = true)
      (first.form.isPictorial = false ∨ second.form.isPictorial = false) := by
  unfold applyOperator.combine
  apply first.to_image_follows.bind .inl
  intro a firstServes
  apply second.to_image_follows.bind .inr
  intro b secondServes
  exact ⟨rfl, firstServes, secondServes⟩

theorem operator_follows (operator : Operator) (first second : Value) :
    Follows (applyOperator (.graph names defaults) operator first second)
      (fun value => operator.form? first.form second.form = some value.form)
      (operator.form? first.form second.form = none) := by
  have combined (noArithmetic :
      ¬(first.form = .number ∧ second.form = .number ∧ operator.isArithmetic = true)) :
      Follows (applyOperator.combine (.graph names defaults) operator first second)
        (fun value => operator.form? first.form second.form = some value.form)
        (operator.form? first.form second.form = none) := by
    apply (combine_follows operator first second).mono
    · intro lacking
      have notBoth : ¬(first.form.isPictorial = true ∧ second.form.isPictorial = true) := by
        rcases lacking with firstLacks | secondLacks
        · simp [firstLacks]
        · simp [secondLacks]
      rw [Operator.form?, if_neg noArithmetic, if_neg notBoth]
    · intro value combines
      rw [Operator.form?, if_neg noArithmetic, if_pos combines.2, combines.1]
  -- Two numbers are combined as images all the same, if the operator has no arithmetic meaning.
  unfold applyOperator
  split
  · rename_i a b firstNumber secondNumber
    have meaning := operator.arithmetic_some a b
    split
    · rename_i result computed
      rw [computed] at meaning
      have isNumber : operator.form? first.form second.form = some .number :=
        if_pos ⟨Value.form_of_number firstNumber, Value.form_of_number secondNumber, meaning.symm⟩
      split
      · exact .inl rfl
      · apply (Follows.finite result).mono id
        intro value computes
        rw [isNumber, computes]
    · rename_i noResult
      rw [noResult] at meaning
      apply combined
      intro arithmetic
      exact Bool.false_ne_true (meaning.trans arithmetic.2.2)
  · rename_i notNumbers
    apply combined
    intro arithmetic
    obtain ⟨a, firstNumber⟩ := Value.number_of_form arithmetic.1
    obtain ⟨b, secondNumber⟩ := Value.number_of_form arithmetic.2.1
    exact notNumbers a b firstNumber secondNumber

namespace Expr

theorem number_follows {expression : Expr} (follows : expression.FollowsForm names defaults)
    (complaint : Found → Complaint) :
    Follows (evaluate (.graph names defaults) expression >>= Value.asNumber complaint)
      (fun _ => decide (expression.form? names.contains = some .number) = true)
      (decide (expression.form? names.contains = some .number) = false) := by
  apply follows.bind
  · intro noForm
    simp [noForm]
  · intro value formed
    rw [formed]
    apply (value.as_number_follows complaint).mono
    · simp
    · simp

theorem image_follows {expression : Expr} (follows : expression.FollowsForm names defaults) :
    Follows (evaluate (.graph names defaults) expression >>= Value.toImage defaults)
      (fun _ => (expression.form? names.contains).any Form.isPictorial = true)
      ((expression.form? names.contains).any Form.isPictorial = false) := by
  apply follows.bind
  · intro noForm
    simp [noForm]
  · intro value formed
    rw [formed]
    exact value.to_image_follows

/-- Several expressions are computed with one after the other, and all of them have to fit. -/
theorem all_follow {Result : Type} {compute : Expr → Except Error Result} {items : List Expr}
    (fits : Option Form → Bool)
    (each : ∀ item ∈ items, Follows (compute item)
      (fun _ => fits (item.form? names.contains) = true)
      (fits (item.form? names.contains) = false)) :
    Follows (items.mapM compute)
      (fun results => results.length = items.length ∧
        (forms names.contains items).all fits = true)
      ((forms names.contains items).all fits = false) := by
  induction items with
  | nil => exact ⟨rfl, rfl⟩
  | cons item items induction =>
      have head := each item List.mem_cons_self
      have tail := induction fun other member => each other (List.mem_cons_of_mem item member)
      rw [List.mapM_cons, forms, List.all_cons]
      apply head.bind
      · intro lacking
        rw [lacking, Bool.false_and]
      intro result itemFits
      apply tail.bind
      · intro lacking
        rw [lacking, Bool.and_false]
      intro results othersFit
      have count : (result :: results).length = (item :: items).length := by
        rw [List.length_cons, List.length_cons, othersFit.1]
      have allFit : (fits (item.form? names.contains) &&
          (forms names.contains items).all fits) = true := by
        rw [itemFits, othersFit.2, Bool.and_self]
      exact ⟨count, allFit⟩

theorem numbers_follow {items : List Expr}
    (each : ∀ item ∈ items, item.FollowsForm names defaults) (complaint : Found → Complaint) :
    Follows (evaluateNumbers (.graph names defaults) complaint items)
      (fun numbers => numbers.length = items.length ∧
        (forms names.contains items).all (· = some .number) = true)
      ((forms names.contains items).all (· = some .number) = false) := by
  rw [evaluate_numbers_eq]
  apply all_follow (· = some .number)
  intro item member
  exact number_follows (each item member) complaint

theorem images_follow {arguments : List Expr}
    (each : ∀ argument ∈ arguments, argument.FollowsForm names defaults) :
    Follows (evaluateImages (.graph names defaults) defaults arguments)
      (fun images => images.length = arguments.length ∧
        (forms names.contains arguments).all (·.any Form.isPictorial) = true)
      ((forms names.contains arguments).all (·.any Form.isPictorial) = false) := by
  rw [evaluate_images_eq]
  apply all_follow (·.any Form.isPictorial)
  intro argument member
  exact image_follows (each argument member)

theorem resolution_follows {argument : Expr} (follows : argument.FollowsForm names defaults)
    (source : Generator) :
    Follows (resolutionOf names defaults source argument)
      (fun _ => argument.givesResolution names.contains (argument.form? names.contains) = true)
      (argument.givesResolution names.contains (argument.form? names.contains) = false) := by
  have computed : Follows
      (evaluate (.graph names defaults) argument >>= computedResolution source)
      (fun _ => decide (argument.form? names.contains = some .number) = true)
      (decide (argument.form? names.contains = some .number) = false) := by
    unfold computedResolution
    rw [← bind_assoc]
    apply (number_follows follows (.resolutionArgument source)).bind id
    intro side isNumber
    cases read : Resolution.ofSide side with
    | ok resolution => exact isNumber
    | error fault => exact .inl rfl
  unfold resolutionOf
  cases argument with
  | resolution width height span =>
      simp only [writtenResolution?]
      cases read : Resolution.ofHalves width height with
      | ok resolution => exact rfl
      | error fault => exact .inl rfl
  | identifier name span =>
      simp only [writtenResolution?]
      cases registered : names.contains name with
      | true =>
          apply computed.mono
          · simp [givesResolution, registered]
          · simp [form?, registered]
      | false =>
          by_cases isDefault : name = defaultResolutionName
          · simp only [isDefault, if_true, Bool.false_eq_true, if_false] at registered ⊢
            simp [Follows, givesResolution, registered]
          · simp only [isDefault, if_false, Bool.false_eq_true]
            cases named : Resolution.named? name with
            | some resolution => simp [Follows, givesResolution, registered, named]
            | none => exact .inr (by simp [givesResolution, registered, isDefault, named])
  | number _ _ | array _ _ | call _ _ _ | negation _ _ | binary _ _ _ _ => exact computed

variable {arguments : List Expr} {function : String}

theorem generator_follows {source : Generator} (span : Span)
    (each : ∀ argument ∈ arguments, argument.FollowsForm names defaults)
    (found : Constructor.named? function = some (.image (.generator source))) :
    (call function arguments span).FollowsForm names defaults := by
  unfold FollowsForm
  rcases arguments with _ | ⟨argument, _ | ⟨second, others⟩⟩
  · rw [evaluate_wrong_count found rfl]
    exact .inr (by simp [form?, callForm?, found])
  · rw [evaluate_generator argument found]
    apply (resolution_follows (each argument List.mem_cons_self) source).bind
    · intro lacking
      simp [form?, callForm?, forms, found, lacking]
    · intro resolution given
      simp only [form?, callForm?, forms, found, given, if_true]
      rfl
  · rw [evaluate_wrong_count found rfl]
    exact .inr (by simp [form?, callForm?, found])

theorem call_form_effect {kind : Kind} (known : String → Bool) (forms : List (Option Form))
    (found : Constructor.named? function = some (.image kind))
    (effect : ∀ source, kind ≠ .generator source) :
    callForm? known function arguments forms =
      if kind.arity.accepts arguments.length ∧ forms.all (·.any Form.isPictorial) then some .image
      else none := by
  rcases kind with source | kind | kind | kind
  · exact absurd rfl (effect source)
  all_goals simp only [callForm?, found]

theorem effect_follows {kind : Kind} (span : Span)
    (each : ∀ argument ∈ arguments, argument.FollowsForm names defaults)
    (found : Constructor.named? function = some (.image kind))
    (effect : ∀ source, kind ≠ .generator source) :
    (call function arguments span).FollowsForm names defaults := by
  unfold FollowsForm
  rw [form?, call_form_effect _ _ found effect]
  cases accepted : kind.arity.accepts arguments.length with
  | false =>
      rw [evaluate_wrong_count found accepted]
      exact .inr rfl
  | true =>
      rw [evaluate_effect found effect accepted]
      apply (images_follow each).bind
      · intro lacking
        simp [lacking]
      · intro images imagesFit
        rcases imagesFit with ⟨count, areImages⟩
        rw [← count] at accepted
        obtain ⟨image, made, _⟩ := Image.of_kind_effect effect accepted
        simp only [made, areImages]
        rfl

theorem color_follows {color : ColorFunction} (span : Span)
    (each : ∀ argument ∈ arguments, argument.FollowsForm names defaults)
    (found : Constructor.named? function = some (.color color)) :
    (call function arguments span).FollowsForm names defaults := by
  unfold FollowsForm
  rw [form?, callForm?.eq_def]
  simp only [found]
  cases accepted : color.arity.accepts arguments.length with
  | false =>
      rw [evaluate_wrong_count found accepted]
      exact .inr rfl
  | true =>
      rw [evaluate_color found accepted]
      apply (numbers_follow each (.colorArgument color)).bind
      · intro lacking
        simp [lacking]
      · intro channels channelsFit
        rcases channelsFit with ⟨count, areNumbers⟩
        rw [← count] at accepted
        obtain ⟨shade, shaded⟩ := color.shade_accepted accepted
        simp only [shaded, areNumbers]
        rfl

theorem math_follows (span : Span)
    (each : ∀ argument ∈ arguments, argument.FollowsForm names defaults)
    (other : Constructor.named? function = none) :
    (call function arguments span).FollowsForm names defaults := by
  unfold FollowsForm
  rw [form?, callForm?.eq_def]
  simp only [other]
  cases found : MathFunction.named? function with
  | none =>
      rw [evaluate_unknown other found]
      exact .inr rfl
  | some math =>
      cases accepted : math.arity.accepts arguments.length with
      | false =>
          rw [evaluate_math_wrong_count other found accepted]
          exact .inr (by simp [accepted])
      | true =>
          rw [evaluate_math other found accepted]
          apply (numbers_follow each (.mathArgument function)).bind
          · intro lacking
            simp [lacking]
          · intro numbers numbersFit
            rcases numbersFit with ⟨count, areNumbers⟩
            have enough : math.arity.accepts numbers.length = true := by rwa [count]
            obtain ⟨result, computed⟩ := math.value_accepted enough
            simp only [computed, areNumbers, accepted]
            apply (Follows.finite result).mono id
            intro value isNumber
            simp [isNumber]

theorem negation_follows {operand : Expr} (span : Span)
    (follows : operand.FollowsForm names defaults) :
    (negation operand span).FollowsForm names defaults := by
  unfold FollowsForm
  rw [evaluate, ← bind_assoc]
  apply (number_follows follows .negated).bind
  · intro lacking
    rw [form?, if_neg (of_decide_eq_false lacking)]
  · intro number isNumber
    rw [form?, if_pos (of_decide_eq_true isNumber)]
    exact rfl

theorem binary_follows {first second : Expr} (operator : Operator) (span : Span)
    (left : first.FollowsForm names defaults) (right : second.FollowsForm names defaults) :
    (binary operator first second span).FollowsForm names defaults := by
  unfold FollowsForm
  rw [evaluate]
  apply left.bind
  · intro noForm
    simp [form?, noForm]
  intro a formed
  apply right.bind
  · intro noForm
    simp [form?, formed, noForm]
  intro b otherFormed
  simpa [form?, formed, otherFormed] using operator_follows operator a b

theorem identifier_follows (name : String) (span : Span) :
    (identifier name span).FollowsForm names defaults := by
  unfold FollowsForm
  rw [evaluate]
  rcases bound : names.get? name with _ | image
  · have unregistered : names.contains name = false := by simp [Registry.contains, bound]
    by_cases isPi : name = "pi"
    · subst isPi
      simp [Scope.lookup, Follows, form?, Value.form, bound, unregistered]
    · simp [Scope.lookup, Follows, form?, bound, unregistered, isPi]
  · have registered : names.contains name = true := by simp [Registry.contains, bound]
    simp [Scope.lookup, Follows, form?, Value.form, bound, registered]

theorem follows_form (names : Registry) (defaults : Defaults) (expression : Expr) :
    expression.FollowsForm names defaults := by
  induction expression using by_operands with
  | number value span =>
      rw [FollowsForm, evaluate]
      exact rfl
  | identifier name span => exact identifier_follows name span
  | resolution width height span =>
      rw [FollowsForm, evaluate]
      exact .inr rfl
  | array items span each =>
      rw [FollowsForm, evaluate]
      apply (numbers_follow each .arrayItem).bind
      · intro lacking
        simp [form?, lacking]
      · intro numbers numbersFit
        rcases numbersFit with ⟨count, areNumbers⟩
        simp only [form?, areNumbers, ← count]
        rfl
  | call function arguments span each =>
      rcases found : Constructor.named? function with _ | kind | color
      · exact math_follows span each found
      · rcases kind with source | effect | combination | arrangement
        · exact generator_follows span each found
        all_goals exact effect_follows span each found (by simp)
      · exact color_follows span each found
  | negation operand span follows => exact negation_follows span follows
  | binary operator first second span left right => exact binary_follows operator span left right

theorem form_of_ok {expression : Expr} {value : Value}
    (evaluated : evaluate (.graph names defaults) expression = .ok value) :
    expression.form? names.contains = some value.form := by
  have follows := expression.follows_form names defaults
  rw [FollowsForm, evaluated] at follows
  exact follows

theorem form_of_error {expression : Expr} {error : Error}
    (evaluated : evaluate (.graph names defaults) expression = .error error) :
    error.concernsNumber = true ∨ expression.form? names.contains = none := by
  have follows := expression.follows_form names defaults
  rw [FollowsForm, evaluated] at follows
  exact follows

end Expr

/-- Evaluation in the scope of the graph is governed by the form. A value has the form of its
expression, and an expression with a form has a value of that form or fails over a number: by a
division by zero, a result that is not finite, or a resolution that is not positive. So an
expression without a form never has a value. -/
theorem evaluation_has_form (names : Registry) (defaults : Defaults) (expression : Expr) :
    (∀ value, evaluate (.graph names defaults) expression = .ok value →
      expression.form? names.contains = some value.form) ∧
    (∀ form, expression.form? names.contains = some form →
      (∃ value, evaluate (.graph names defaults) expression = .ok value ∧ value.form = form) ∨
      evaluate (.graph names defaults) expression = .error .divisionByZero ∨
      evaluate (.graph names defaults) expression = .error .notFinite ∨
      ∃ fault, evaluate (.graph names defaults) expression = .error (.resolution fault)) ∧
    (expression.form? names.contains = none →
      ∃ error, evaluate (.graph names defaults) expression = .error error) := by
  cases evaluated : evaluate (.graph names defaults) expression with
  | error error =>
      refine ⟨by simp, ?_, fun _ => ⟨error, rfl⟩⟩
      intro form formed
      rcases Expr.form_of_error evaluated with overNumber | noForm
      · cases error <;> simp_all [Error.concernsNumber]
      · rw [noForm] at formed
        cases formed
  | ok value =>
      have formed := Expr.form_of_ok evaluated
      refine ⟨?_, ?_, ?_⟩
      · intro same isSame
        cases isSame
        exact formed
      · intro form hasForm
        exact .inl ⟨value, rfl, Option.some.inj (formed.symm.trans hasForm)⟩
      · intro noForm
        rw [formed] at noForm
        cases noForm

/-- An image hides the resolution of its name, so the same call has a form or none. -/
example :
    let argument := Expr.identifier "hd" ⟨6, 8⟩
    (Expr.call "noise" [argument] ⟨0, 9⟩).form? (· = "hd") = none ∧
    (Expr.call "noise" [argument] ⟨0, 9⟩).form? (· = "pi") = some .image := by
  decide +kernel

end ImageGraph
