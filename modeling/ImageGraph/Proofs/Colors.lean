import ImageGraph.Proofs.Failure
import ImageGraph.Proofs.Naming

/-!
Ways to write a color. A call of a color function is a color and an array is a row of numbers, so
the two are different values. But what is around a value only asks it for a number or for an image,
and in both they answer alike. Whatever refuses one of them also refuses the other, and then only
the wording of the complaint says which it was.
-/

set_option autoImplicit false

namespace ImageGraph

/-- Two errors of one kind: the same error, or a complaint about an argument in both cases. -/
inductive Error.Akin : Error → Error → Prop where
  | same (error : Error) : Akin error error
  | complaints (first second : Complaint) : Akin (.badArgument first) (.badArgument second)

/-- Two computations have related results or fail with errors of one kind. -/
inductive Concur {First Second : Type} (related : First → Second → Prop) :
    Except Error First → Except Error Second → Prop where
  | results {first : First} {second : Second} (both : related first second) :
      Concur related (.ok first) (.ok second)
  | errors {first second : Error} (akin : first.Akin second) :
      Concur related (.error first) (.error second)

namespace Concur

variable {First Second Result Other : Type} {related : First → Second → Prop}
  {ends : Result → Other → Prop}

theorem same {reflexive : Result → Result → Prop} (each : ∀ result, reflexive result result)
    (computed : Except Error Result) : Concur reflexive computed computed := by
  cases computed with
  | ok result => exact .results (each result)
  | error error => exact .errors (.same error)

theorem refl (computed : Except Error Result) : Concur Eq computed computed :=
  same (fun _ => rfl) computed

theorem mono {wider : First → Second → Prop} {first : Except Error First}
    {second : Except Error Second} (concur : Concur related first second)
    (widens : ∀ one other, related one other → wider one other) : Concur wider first second := by
  cases concur with
  | results both => exact .results (widens _ _ both)
  | errors akin => exact .errors akin

theorem bind {first : Except Error First} {second : Except Error Second}
    {next : First → Except Error Result} {again : Second → Except Error Other}
    (begin : Concur related first second)
    (goesOn : ∀ one other, related one other → Concur ends (next one) (again other)) :
    Concur ends (first >>= next) (second >>= again) := by
  cases begin with
  | results both => exact goesOn _ _ both
  | errors akin => exact .errors akin

theorem keep {property : First → Prop} {first : Except Error First} {second : Except Error Second}
    (concur : Concur related first second) (holds : ∀ one, first = .ok one → property one) :
    Concur (fun one other => related one other ∧ property one) first second := by
  cases concur with
  | results both => exact .results ⟨both, holds _ rfl⟩
  | errors akin => exact .errors akin

theorem bind_refl {first second : Except Error First} {next : First → Except Error Result}
    (begin : Concur Eq first second) : Concur Eq (first >>= next) (second >>= next) := by
  apply begin.bind
  rintro one _ rfl
  exact refl _

end Concur

/-- Two values that answer alike when they are asked for a number or for an image. -/
structure Value.Passes (value other : Value) : Prop where
  number : other.number? = value.number?
  image : ∀ defaults, other.toImage defaults = value.toImage defaults

namespace Value

variable {value other : Value}

theorem Passes.refl (value : Value) : value.Passes value := ⟨rfl, fun _ => rfl⟩

theorem passes_of_eq (value other : Value) (same : value = other) : value.Passes other :=
  same ▸ .refl value

theorem Passes.as_number (passes : value.Passes other) (complaint again : Found → Complaint) :
    Concur Eq (value.asNumber complaint) (other.asNumber again) := by
  unfold asNumber
  rw [passes.number]
  cases value.number? with
  | some number => exact .refl _
  | none => exact .errors (.complaints _ _)

theorem Passes.to_image (passes : value.Passes other) (defaults : Defaults) :
    Concur Eq (value.toImage defaults) (other.toImage defaults) := by
  rw [passes.image]
  exact .refl _

theorem opaque_passes (red green blue : Float) :
    (color (.opaqueOf red green blue)).Passes (numbers [red, green, blue]) :=
  ⟨rfl, fun _ => rfl⟩

theorem channels_pass (red green blue alpha : Float) :
    (color ⟨red, green, blue, alpha⟩).Passes (numbers [red, green, blue, alpha]) :=
  ⟨rfl, fun _ => rfl⟩

theorem Passes.symm (passes : value.Passes other) : other.Passes value :=
  ⟨passes.number.symm, fun defaults => (passes.image defaults).symm⟩

theorem Passes.trans {third : Value} (passes : value.Passes other) (again : other.Passes third) :
    value.Passes third :=
  ⟨again.number.trans passes.number, fun defaults =>
    (again.image defaults).trans (passes.image defaults)⟩

end Value

namespace Expr

variable {names : Registry} {defaults : Defaults} {expression other : Expr}

/-- Two expressions that what is around them cannot tell apart. -/
structure Passes (names : Registry) (defaults : Defaults) (expression other : Expr) : Prop where
  value : Concur Value.Passes (evaluate (.graph names defaults) expression)
    (evaluate (.graph names defaults) other)
  written : writtenResolution? names defaults other = writtenResolution? names defaults expression

theorem Passes.refl (names : Registry) (defaults : Defaults) (expression : Expr) :
    Passes names defaults expression expression :=
  ⟨.same Value.Passes.refl _, rfl⟩

section Constructs

variable {items others : List Expr} {span place : Span}

theorem numbers_pass (each : List.Forall₂ (Passes names defaults) items others)
    (complaint again : Found → Complaint) :
    Concur Eq (evaluateNumbers (.graph names defaults) complaint items)
      (evaluateNumbers (.graph names defaults) again others) := by
  induction each with
  | nil => exact .refl _
  | cons head tail induction =>
      rw [evaluateNumbers, evaluateNumbers]
      apply head.value.bind
      intro value other passes
      apply (passes.as_number complaint again).bind
      rintro number _ rfl
      exact induction.bind_refl

theorem images_pass (each : List.Forall₂ (Passes names defaults) items others) :
    Concur Eq (evaluateImages (.graph names defaults) defaults items)
      (evaluateImages (.graph names defaults) defaults others) := by
  induction each with
  | nil => exact .refl _
  | cons head tail induction =>
      rw [evaluateImages, evaluateImages]
      apply head.value.bind
      intro value other passes
      apply (passes.to_image defaults).bind
      rintro image _ rfl
      exact induction.bind_refl

theorem resolution_passes (source : Generator) (passes : Passes names defaults expression other) :
    Concur Eq (resolutionOf names defaults source expression)
      (resolutionOf names defaults source other) := by
  unfold resolutionOf computedResolution
  rw [passes.written]
  cases writtenResolution? names defaults expression with
  | some written => exact .refl _
  | none =>
      apply passes.value.bind
      intro value other passes
      exact (passes.as_number _ _).bind_refl

theorem operator_passes {first second value again : Value} (operator : Operator)
    (passes : first.Passes value) (alsoPasses : second.Passes again) :
    Concur Eq (applyOperator (.graph names defaults) operator first second)
      (applyOperator (.graph names defaults) operator value again) := by
  have combined : Concur Eq (applyOperator.combine (.graph names defaults) operator first second)
      (applyOperator.combine (.graph names defaults) operator value again) := by
    unfold applyOperator.combine
    simp only [passes.image, alsoPasses.image]
    exact .refl _
  unfold applyOperator
  rw [passes.number, alsoPasses.number]
  split
  · split
    · exact .refl _
    · exact combined
  · exact combined

theorem array_passes (each : List.Forall₂ (Passes names defaults) items others) :
    Passes names defaults (.array items span) (.array others place) := by
  refine ⟨?_, rfl⟩
  rw [evaluate, evaluate]
  exact ((numbers_pass each _ _).bind_refl).mono Value.passes_of_eq

/-- A call asks each of its arguments for a number or for an image. A generator looks at its
argument before, in case a resolution is written there. -/
theorem call_passes (function : String) (each : List.Forall₂ (Passes names defaults) items others) :
    Passes names defaults (.call function items span) (.call function others place) := by
  refine ⟨.mono ?_ Value.passes_of_eq, rfl⟩
  have count := each.length_eq
  rcases found : Constructor.named? function with _ | constructor
  · rcases mathFound : MathFunction.named? function with _ | math
    · rw [evaluate_unknown found mathFound, evaluate_unknown found mathFound]
      exact .refl _
    · cases accepted : math.arity.accepts items.length with
      | false =>
          rw [evaluate_math_wrong_count found mathFound accepted,
            evaluate_math_wrong_count found mathFound (count ▸ accepted), count]
          exact .refl _
      | true =>
          rw [evaluate_math found mathFound accepted,
            evaluate_math found mathFound (count ▸ accepted)]
          exact (numbers_pass each _ _).bind_refl
  cases accepted : constructor.arity.accepts items.length with
  | false =>
      rw [evaluate_wrong_count found accepted, evaluate_wrong_count found (count ▸ accepted), count]
      exact .refl _
  | true =>
      rcases constructor with kind | color
      · by_cases generator : ∃ source, kind = .generator source
        · obtain ⟨source, rfl⟩ := generator
          obtain ⟨argument, rfl⟩ := List.length_eq_one_iff.1 (eq_of_beq accepted)
          obtain ⟨again, rfl⟩ := List.length_eq_one_iff.1 count.symm
          simp only [List.forall₂_cons, List.Forall₂.nil, and_true] at each
          rw [evaluate_generator _ found, evaluate_generator _ found]
          exact (resolution_passes source each).bind_refl
        · have effect : ∀ source, kind ≠ .generator source :=
            fun source equal => generator ⟨source, equal⟩
          rw [evaluate_effect found effect accepted,
            evaluate_effect found effect (count ▸ accepted)]
          exact (images_pass each).bind_refl
      · rw [evaluate_color found accepted, evaluate_color found (count ▸ accepted)]
        exact (numbers_pass each _ _).bind_refl

theorem negation_passes (passes : Passes names defaults expression other) :
    Passes names defaults (.negation expression span) (.negation other place) := by
  refine ⟨.mono ?_ Value.passes_of_eq, rfl⟩
  rw [evaluate, evaluate]
  apply passes.value.bind
  intro value other passes
  exact (passes.as_number _ _).bind_refl

theorem binary_passes {second last : Expr} (operator : Operator)
    (passes : Passes names defaults expression other)
    (alsoPasses : Passes names defaults second last) :
    Passes names defaults (.binary operator expression second span)
      (.binary operator other last place) := by
  refine ⟨.mono ?_ Value.passes_of_eq, rfl⟩
  rw [evaluate, evaluate]
  apply passes.value.bind
  intro first value firstPasses
  apply alsoPasses.value.bind
  intro second again secondPasses
  exact operator_passes operator firstPasses secondPasses

end Constructs

theorem Context.fill_passes (context : Context) (passes : Passes names defaults expression other) :
    Passes names defaults (context.fill expression) (context.fill other) := by
  have around {inner again : Expr} (before behind : List Expr)
      (passes : Passes names defaults inner again) :
      List.Forall₂ (Passes names defaults) (before ++ inner :: behind)
        (before ++ again :: behind) := by
    have kept (parts : List Expr) : List.Forall₂ (Passes names defaults) parts parts :=
      List.forall₂_same.2 fun part _ => .refl names defaults part
    exact List.rel_append (kept before) (.cons passes (kept behind))
  induction context with
  | hole => exact passes
  | array before inner behind span induction => exact array_passes (around before behind induction)
  | call function before inner behind span induction =>
      exact call_passes function (around before behind induction)
  | negation inner span induction => exact negation_passes induction
  | left operator inner second span induction =>
      exact binary_passes operator induction (.refl names defaults second)
  | right operator first inner span induction =>
      exact binary_passes operator (.refl names defaults first) induction

theorem Passes.describe (passes : Passes names defaults expression other) :
    Concur Eq (expression.describe names defaults) (other.describe names defaults) := by
  unfold Expr.describe
  apply passes.value.bind
  intro value again passes
  exact passes.to_image defaults

/-- An expression that evaluates its items to numbers and makes a value of them that passes for a
given one. -/
structure Makes (names : Registry) (defaults : Defaults) (items : List Expr)
    (value : List Float → Value) (expression : Expr) : Prop where
  numbers : ∃ complaint next,
    evaluate (.graph names defaults) expression =
        (evaluateNumbers (.graph names defaults) complaint items >>= next) ∧
      ∀ channels, channels.length = items.length →
        ∃ made, next channels = .ok made ∧ (value channels).Passes made
  unwritten : writtenResolution? names defaults expression = none

section Notations

variable {items : List Expr} {value : List Float → Value}

theorem array_makes (names : Registry) (defaults : Defaults) (items : List Expr) (span : Span) :
    Makes names defaults items .numbers (.array items span) := by
  refine ⟨⟨.arrayItem, fun channels => .ok (.numbers channels), ?_, ?_⟩, rfl⟩
  · rw [evaluate]
    rfl
  · exact fun channels _ => ⟨_, rfl, .refl _⟩

theorem color_call_makes (names : Registry) (defaults : Defaults) (color : ColorFunction)
    (span : Span) (accepted : color.arity.accepts items.length = true)
    (passes : ∀ channels shade, color.shade? channels = some shade →
      (value channels).Passes (.color shade)) :
    Makes names defaults items value (.call color.name items span) := by
  have named := Constructor.named_name (.color color)
  refine ⟨⟨.colorArgument color, _, evaluate_color named accepted, ?_⟩, rfl⟩
  intro channels length
  obtain ⟨shade, shaded⟩ := color.shade_accepted (length ▸ accepted)
  refine ⟨.color shade, ?_, passes channels shade shaded⟩
  simp only [shaded]
  rfl

theorem evaluate_numbers_snoc {scope : Scope} (complaint : Found → Complaint) (items : List Expr)
    (number : Float) (span : Span) :
    evaluateNumbers scope complaint (items ++ [.number number span]) =
      evaluateNumbers scope complaint items >>= fun channels => .ok (channels ++ [number]) := by
  induction items with
  | nil =>
      rw [List.nil_append, evaluateNumbers, evaluateNumbers, evaluate]
      rfl
  | cons first others induction =>
      rw [List.cons_append, evaluateNumbers, evaluateNumbers, induction]
      simp only [bind_assoc, pure_bind]
      rfl

theorem Makes.of_snoc {number : Float} {place : Span} {short : List Float → Value}
    (makes : Makes names defaults (items ++ [.number number place]) value expression)
    (passes : ∀ channels, channels.length = items.length →
      (short channels).Passes (value (channels ++ [number]))) :
    Makes names defaults items short expression := by
  obtain ⟨⟨complaint, next, evaluated, ends⟩, unwritten⟩ := makes
  refine ⟨⟨complaint, fun channels => next (channels ++ [number]), ?_, ?_⟩, unwritten⟩
  · rw [evaluated, evaluate_numbers_snoc, bind_assoc]
    rfl
  · intro channels length
    have longer : (channels ++ [number]).length = (items ++ [Expr.number number place]).length := by
      rw [List.length_append, List.length_append, length]
      rfl
    obtain ⟨made, isMade, madePasses⟩ := ends _ longer
    exact ⟨made, isMade, (passes channels length).trans madePasses⟩

theorem Makes.passes (makes : Makes names defaults items value expression)
    (alsoMakes : Makes names defaults items value other) :
    Passes names defaults expression other := by
  obtain ⟨⟨complaint, next, evaluated, ends⟩, unwritten⟩ := makes
  obtain ⟨⟨complaint', next', evaluated', ends'⟩, unwritten'⟩ := alsoMakes
  have each : List.Forall₂ (Passes names defaults) items items :=
    List.forall₂_same.2 fun item _ => .refl names defaults item
  refine ⟨?_, unwritten'.trans unwritten.symm⟩
  rw [evaluated, evaluated']
  apply ((numbers_pass each complaint complaint').keep fun channels => numbers_length).bind
  rintro channels _ ⟨rfl, length⟩
  obtain ⟨made, isMade, passes⟩ := ends channels length
  obtain ⟨made', isMade', passes'⟩ := ends' channels length
  rw [isMade, isMade']
  exact .results (passes.symm.trans passes')

def opaqueColors (red green blue : Expr) : List Expr :=
  [.call "rgb" [red, green, blue] nowhere, .array [red, green, blue] nowhere,
    .call "rgba" [red, green, blue, .number 1 nowhere] nowhere]

def alphaColors (red green blue alpha : Expr) : List Expr :=
  [.call "rgba" [red, green, blue, alpha] nowhere, .array [red, green, blue, alpha] nowhere]

def hueColors (hue saturation value : Expr) : List Expr :=
  [.call "hsv" [hue, saturation, value] nowhere,
    .call "hsva" [hue, saturation, value, .number 1 nowhere] nowhere]

theorem numbers_pass_rgb (channels : List Float) (shade : Color)
    (shaded : ColorFunction.rgb.shade? channels = some shade) :
    (Value.numbers channels).Passes (.color shade) := by
  rcases channels with _ | ⟨red, _ | ⟨green, _ | ⟨blue, _ | ⟨extra, others⟩⟩⟩⟩ <;> cases shaded
  exact (Value.opaque_passes red green blue).symm

theorem numbers_pass_rgba (channels : List Float) (shade : Color)
    (shaded : ColorFunction.rgba.shade? channels = some shade) :
    (Value.numbers channels).Passes (.color shade) := by
  rcases channels with _ | ⟨red, _ | ⟨green, _ | ⟨blue, _ | ⟨alpha, _ | ⟨extra, others⟩⟩⟩⟩⟩ <;>
    cases shaded
  exact (Value.channels_pass red green blue alpha).symm

theorem alpha_colors_make (names : Registry) (defaults : Defaults) (red green blue alpha : Expr) :
    ∀ expression ∈ alphaColors red green blue alpha,
      Makes names defaults [red, green, blue, alpha] .numbers expression := by
  intro expression member
  simp only [alphaColors, List.mem_cons, List.not_mem_nil, or_false] at member
  rcases member with rfl | rfl
  · exact color_call_makes names defaults .rgba nowhere rfl numbers_pass_rgba
  · exact array_makes names defaults _ nowhere

theorem opaque_colors_make (names : Registry) (defaults : Defaults) (red green blue : Expr) :
    ∀ expression ∈ opaqueColors red green blue,
      Makes names defaults [red, green, blue] .numbers expression := by
  intro expression member
  simp only [opaqueColors, List.mem_cons, List.not_mem_nil, or_false] at member
  rcases member with rfl | rfl | rfl
  · exact color_call_makes names defaults .rgb nowhere rfl numbers_pass_rgb
  · exact array_makes names defaults _ nowhere
  · have longer : Makes names defaults ([red, green, blue] ++ [.number 1 nowhere]) .numbers
        (.call "rgba" [red, green, blue, .number 1 nowhere] nowhere) :=
      color_call_makes names defaults .rgba nowhere rfl numbers_pass_rgba
    apply longer.of_snoc
    intro channels length
    obtain ⟨r, g, b, rfl⟩ := List.length_eq_three.1 length
    exact ⟨rfl, fun _ => rfl⟩

theorem hue_colors_make (names : Registry) (defaults : Defaults) (hue saturation value : Expr) :
    ∀ expression ∈ hueColors hue saturation value,
      Makes names defaults [hue, saturation, value]
        (fun channels => .color ((ColorFunction.hsv.shade? channels).getD .black)) expression := by
  have known (color : ColorFunction) (channels : List Float) (shade : Color)
      (shaded : color.shade? channels = some shade) :
      (Value.color ((color.shade? channels).getD .black)).Passes (.color shade) := by
    rw [shaded]
    exact .refl _
  intro expression member
  simp only [hueColors, List.mem_cons, List.not_mem_nil, or_false] at member
  rcases member with rfl | rfl
  · exact color_call_makes names defaults .hsv nowhere rfl (known .hsv)
  · have longer : Makes names defaults ([hue, saturation, value] ++ [.number 1 nowhere])
        (fun channels => .color ((ColorFunction.hsva.shade? channels).getD .black))
        (.call "hsva" [hue, saturation, value, .number 1 nowhere] nowhere) :=
      color_call_makes names defaults .hsva nowhere rfl (known .hsva)
    apply longer.of_snoc
    intro channels length
    obtain ⟨h, s, v, rfl⟩ := List.length_eq_three.1 length
    exact .refl _

end Notations

end Expr

/-- In every context the ways to write a color may stand for each other: texts that differ only in
them are compiled to the same image, or they fail with errors of one kind. An image is compared as
the tree of everything that it is made from, in which registered images are told apart by their
addresses and every other one is new, so equal ones are isomorphic graphs. -/
theorem colors_stand_for_each_other (names : Registry) (defaults : Defaults)
    (context : Expr.Context) (first second third fourth : Expr) {colors : List Expr}
    {expression other : Expr} {text again : String}
    (family : colors ∈ [Expr.opaqueColors first second third,
      Expr.alphaColors first second third fourth, Expr.hueColors first second third])
    (writes : expression ∈ colors) (alsoWrites : other ∈ colors)
    (isRead : (context.fill expression).IsReadFrom text)
    (alsoRead : (context.fill other).IsReadFrom again) :
    Concur Eq (compile names defaults text) (compile names defaults again) := by
  obtain ⟨_, parsed, bare⟩ := isRead
  obtain ⟨_, alsoParsed, alsoBare⟩ := alsoRead
  rw [compile_of_bare parsed bare, compile_of_bare alsoParsed alsoBare]
  have passes : Expr.Passes names defaults expression other := by
    simp only [List.mem_cons, List.not_mem_nil, or_false] at family
    rcases family with rfl | rfl | rfl
    · exact (Expr.opaque_colors_make names defaults _ _ _ _ writes).passes
        (Expr.opaque_colors_make names defaults _ _ _ _ alsoWrites)
    · exact (Expr.alpha_colors_make names defaults _ _ _ _ _ writes).passes
        (Expr.alpha_colors_make names defaults _ _ _ _ _ alsoWrites)
    · exact (Expr.hue_colors_make names defaults _ _ _ _ writes).passes
        (Expr.hue_colors_make names defaults _ _ _ _ alsoWrites)
  exact (context.fill_passes passes).describe

theorem Expr.Written.read_from {expression : Expr} (written : expression.Written) {text : String}
    (isText : expression.text " " = text) : expression.IsReadFrom text := by
  subst isText
  exact (written.readable (List.all_eq_true.1 rfl)).parse

/-- A color laid over an image is the same in both notations. Neither can be negated, and only the
complaint tells which of them it was. -/
theorem orange_stands_for_channels :
    let names : Registry := [("x", .generator (.stored 0) .noise ⟨64, 64⟩)]
    Concur Eq (compile names .standard "(x) & ([1, 0.5, 0])")
        (compile names .standard "(x) & (rgba(1, 0.5, 0, 1))") ∧
      Concur Eq (compile names .standard "-([1, 0.5, 0])")
        (compile names .standard "-(rgb(1, 0.5, 0))") ∧
      compile names .standard "-([1, 0.5, 0])" = .error (.badArgument (.negated (.numbers 3))) ∧
      compile names .standard "-(rgb(1, 0.5, 0))" =
        .error (.badArgument (.negated (.color ⟨1, 0.5, 0, 1⟩))) := by
  intro names
  let number (value : Float) := Expr.number value Expr.nowhere
  let cover := Expr.Context.right (.blend .over) (.identifier "x" Expr.nowhere) .hole Expr.nowhere
  let minus := Expr.Context.negation .hole Expr.nowhere
  have isNumber (value : Float) (finite : Number.isFinite value = true)
      (unsigned : Number.isNegative value = false) : (number value).Written :=
    .number finite unsigned
  have isOne := isNumber 1 (by decide +kernel) (by decide +kernel)
  have isHalf := isNumber 0.5 (by decide +kernel) (by decide +kernel)
  have isZero := isNumber 0 (by decide +kernel) (by decide +kernel)
  have three : ∀ item ∈ [number 1, number 0.5, number 0], item.Written := by
    simp only [List.forall_mem_cons]
    exact ⟨isOne, isHalf, isZero, by simp⟩
  have four : ∀ item ∈ [number 1, number 0.5, number 0, number 1], item.Written := by
    simp only [List.forall_mem_cons]
    exact ⟨isOne, isHalf, isZero, isOne, by simp⟩
  have isWord : Expr.Token.Spelling (.word "x") "x".toList := .word (by decide) (by simp)
  have isRgb : Expr.Token.Spelling (.word "rgb") "rgb".toList :=
    .word (by decide) (List.all_eq_true.1 (by decide))
  have isRgba : Expr.Token.Spelling (.word "rgba") "rgba".toList :=
    .word (by decide) (List.all_eq_true.1 (by decide))
  have stands (context : Expr.Context) {expression other : Expr} {text again : String}
      (writes : expression ∈ Expr.opaqueColors (number 1) (number 0.5) (number 0))
      (alsoWrites : other ∈ Expr.opaqueColors (number 1) (number 0.5) (number 0))
      (isRead : (context.fill expression).IsReadFrom text)
      (alsoRead : (context.fill other).IsReadFrom again) :
      Concur Eq (compile names .standard text) (compile names .standard again) :=
    colors_stand_for_each_other names .standard context (number 1) (number 0.5) (number 0)
      (number 1)
      List.mem_cons_self writes alsoWrites isRead alsoRead
  refine ⟨?_, ?_, by decide +kernel, by decide +kernel⟩
  · refine stands cover (.tail _ (.head _)) (.tail _ (.tail _ (.head _))) ?_ ?_
    · exact Expr.Written.read_from (.binary (.word isWord) (.array three)) (by decide +kernel)
    · exact Expr.Written.read_from (.binary (.word isWord) (.call isRgba four)) (by decide +kernel)
  · refine stands minus (.tail _ (.head _)) (.head _) ?_ ?_
    · exact Expr.Written.read_from (.negation (.array three)) (by decide +kernel)
    · exact Expr.Written.read_from (.negation (.call isRgb three)) (by decide +kernel)

end ImageGraph
