import ImageGraph.Proofs.Correspondence
import ImageGraph.Session

/-!
What an expression mentions. Its identifiers are all that it asks of the names of a session, and the
default resolution matters only to an expression that passes `default` to a generator. The names of
functions are no identifiers, so an image may have the name of a function and nothing changes for calls
of that function.
-/

set_option autoImplicit false

namespace ImageGraph

namespace Expr

def operands : Expr → List Expr
  | number _ _ | identifier _ _ | resolution _ _ _ => []
  | array items _ => items
  | call _ arguments _ => arguments
  | negation operand _ => [operand]
  | binary _ first second _ => [first, second]

mutual

/-- The expression and all expressions in it, from left to right. -/
def parts : Expr → List Expr
  | number value span => [number value span]
  | identifier name span => [identifier name span]
  | resolution width height span => [resolution width height span]
  | array items span => array items span :: partsAll items
  | call function arguments span => call function arguments span :: partsAll arguments
  | negation operand span => negation operand span :: parts operand
  | binary operator first second span =>
      binary operator first second span :: (parts first ++ parts second)

def partsAll : List Expr → List Expr
  | [] => []
  | first :: others => parts first ++ partsAll others

end

theorem parts_all_eq (items : List Expr) : partsAll items = items.flatMap parts := by
  induction items with
  | nil => rfl
  | cons first others induction => rw [partsAll, induction, List.flatMap_cons]

theorem parts_eq (expression : Expr) :
    expression.parts = expression :: expression.operands.flatMap parts := by
  cases expression <;> simp [parts, operands, parts_all_eq]

theorem part_of_operand {expression operand part : Expr} (isOperand : operand ∈ expression.operands)
    (within : part ∈ operand.parts) : part ∈ expression.parts := by
  rw [parts_eq]
  exact List.mem_cons_of_mem _ (List.mem_flatMap.2 ⟨operand, isOperand, within⟩)

def name? : Expr → Option String
  | identifier name _ => some name
  | _ => none

/-- The names that stand in an expression as operands, from left to right and each as often as it
stands there. -/
def identifiers (expression : Expr) : List String := expression.parts.filterMap name?

def isDefault (argument : Expr) : Bool := argument.name? == some defaultResolutionName

/-- A call of a generator with the identifier `default` as an argument. -/
def isDefaultCall : Expr → Bool
  | call function arguments _ =>
      match Constructor.named? function with
      | some (.image (.generator _)) => arguments.any isDefault
      | _ => false
  | _ => false

def passesDefault (expression : Expr) : Bool := expression.parts.any isDefaultCall

theorem identifiers_eq (expression : Expr) :
    expression.identifiers =
      expression.name?.toList ++ expression.operands.flatMap identifiers := by
  unfold identifiers
  rw [parts_eq, List.filterMap_cons, List.filterMap_flatMap]
  cases expression.name? <;> rfl

theorem identifier_of_operand {expression operand : Expr} {name : String}
    (isOperand : operand ∈ expression.operands) (mentioned : name ∈ operand.identifiers) :
    name ∈ expression.identifiers := by
  rw [identifiers_eq]
  exact List.mem_append_right _ (List.mem_flatMap.2 ⟨operand, isOperand, mentioned⟩)

theorem passes_of_operand {expression operand : Expr} (isOperand : operand ∈ expression.operands)
    (passes : operand.passesDefault = true) : expression.passesDefault = true := by
  obtain ⟨part, within, isCall⟩ := List.any_eq_true.1 passes
  exact List.any_eq_true.2 ⟨part, part_of_operand isOperand within, isCall⟩

theorem passes_of_argument {function : String} {arguments : List Expr} {argument : Expr} {span : Span}
    {source : Generator} (found : Constructor.named? function = some (.image (.generator source)))
    (isArgument : argument ∈ arguments) (asks : argument.isDefault = true) :
    (call function arguments span).passesDefault = true := by
  rw [passesDefault, parts_eq, List.any_cons]
  have isCall : (call function arguments span).isDefaultCall = true := by
    simp only [isDefaultCall, found]
    exact List.any_eq_true.2 ⟨argument, isArgument, asks⟩
  rw [isCall, Bool.true_or]

section Scopes

variable {change : Home → Home} {names other : Registry} {defaults changed : Defaults}

/-- The two scopes bind the identifiers of an expression to the same images, but for a change of homes,
and have the same default resolution if the expression asks for it. -/
structure Agrees (change : Home → Home) (names other : Registry) (defaults changed : Defaults)
    (expression : Expr) : Prop where
  bound : ∀ name ∈ expression.identifiers,
    other.get? name = (names.get? name).map (Image.mapHomes change)
  generated : expression.passesDefault = true → changed.generated = defaults.generated

theorem Agrees.operand {expression operand : Expr}
    (agrees : expression.Agrees change names other defaults changed)
    (isOperand : operand ∈ expression.operands) :
    operand.Agrees change names other defaults changed where
  bound := fun name mentioned => agrees.bound name (identifier_of_operand isOperand mentioned)
  generated := fun passes => agrees.generated (passes_of_operand isOperand passes)

theorem Agrees.identifier {name : String} {span : Span}
    (agrees : (identifier name span).Agrees change names other defaults changed) :
    other.get? name = (names.get? name).map (Image.mapHomes change) :=
  agrees.bound name (by rw [identifiers_eq]; exact List.mem_cons_self)

theorem Agrees.contains {name : String} {span : Span}
    (agrees : (Expr.identifier name span).Agrees change names other defaults changed) :
    other.contains name = names.contains name := by
  rw [Registry.contains, Registry.contains, agrees.identifier, Option.isSome_map]

theorem Agrees.written {expression : Expr}
    (agrees : expression.Agrees change names other defaults changed)
    (generated : expression.isDefault = true → changed.generated = defaults.generated) :
    writtenResolution? other changed expression = writtenResolution? names defaults expression := by
  cases expression with
  | identifier name place =>
      simp only [writtenResolution?, agrees.contains]
      by_cases asks : name = defaultResolutionName
      · subst asks
        rw [generated (beq_self_eq_true _)]
      · simp only [asks, if_false]
  | _ => rfl

/-- An expression has the same value in two scopes that agree on what it mentions. -/
theorem corresponds (fresh : Home.KeepsLoose change) (constant : changed.constant = defaults.constant)
    (expression : Expr) (agrees : expression.Agrees change names other defaults changed) :
    Corresponds change (.graph names defaults) (.graph other changed) expression expression := by
  induction expression using by_operands with
  | number value span => rfl
  | identifier name span =>
      rw [Corresponds, evaluate, evaluate, Scope.lookup, Scope.lookup, agrees.identifier]
      cases names.get? name with
      | some image => rfl
      | none =>
          simp only [Option.map_none]
          split <;> rfl
  | resolution width height span => rfl
  | array items span each =>
      apply array_corresponds
      rw [List.forall₂_same]
      exact fun item member => each item member (agrees.operand member)
  | call function arguments span each =>
      apply call_corresponds fresh constant
      · rw [List.forall₂_same]
        exact fun argument member => each argument member (agrees.operand member)
      · intro source found
        rw [List.forall₂_same]
        intro argument member
        apply (agrees.operand member).written
        exact fun asks => agrees.generated (passes_of_argument found member asks)
  | negation operand span each =>
      exact negation_corresponds (each (agrees.operand List.mem_cons_self))
  | binary operator first second span firstSame secondSame =>
      apply binary_corresponds fresh constant operator
      · exact firstSame (agrees.operand List.mem_cons_self)
      · exact secondSame (agrees.operand (List.mem_cons_of_mem _ List.mem_cons_self))

end Scopes

end Expr

theorem Expr.describe_agrees {names other : Registry} {defaults changed : Defaults}
    {expression : Expr} (constant : changed.constant = defaults.constant)
    (bound : ∀ name ∈ expression.identifiers, other.get? name = names.get? name)
    (generated : expression.passesDefault = true → changed.generated = defaults.generated) :
    expression.describe other changed = expression.describe names defaults := by
  have unchanged (image : Image) : image.mapHomes id = image := image.map_homes_id fun _ _ => rfl
  have agrees : expression.Agrees id names other defaults changed := by
    refine ⟨fun name mentioned => ?_, generated⟩
    rw [bound name mentioned, funext unchanged, Option.map_id']
  rw [described_correspond (fun _ => rfl) constant
    (expression.corresponds (fun _ => rfl) constant agrees), funext unchanged]
  exact id_map _

/-- A text is compiled to the same image, or fails with the same error, wherever the names that it
mentions stand for the same images. The default resolution may differ unless the text passes `default`
to a generator. So a name that the text does not mention can be given to any image. -/
theorem compile_depends_on_mentions (text : String) :
    (∀ (names other : Registry) (defaults changed : Defaults),
      changed.constant = defaults.constant →
      (∀ result, parse text = .ok result →
        (∀ name ∈ result.identifiers, other.get? name = names.get? name) ∧
        (result.passesDefault = true → changed.generated = defaults.generated)) →
      compile other changed text = compile names defaults text) ∧
    ∀ (session : Session) (name : String) (image : Image),
      (∀ result, parse text = .ok result → name ∉ result.identifiers) →
      (session.register name image).compile text = session.compile text := by
  have agrees (names other : Registry) (defaults changed : Defaults)
      (constant : changed.constant = defaults.constant)
      (mentioned : ∀ result, parse text = .ok result →
        (∀ name ∈ result.identifiers, other.get? name = names.get? name) ∧
        (result.passesDefault = true → changed.generated = defaults.generated)) :
      compile other changed text = compile names defaults text := by
    cases parsed : parse text with
    | error error => rw [compile, compile, parsed]; rfl
    | ok result =>
        obtain ⟨bound, generated⟩ := mentioned result parsed
        rw [compile_parsed parsed, compile_parsed parsed,
          Expr.describe_agrees constant bound generated]
  refine ⟨agrees, ?_⟩
  intro session name image unmentioned
  apply agrees _ _ _ _ rfl
  intro result parsed
  refine ⟨?_, fun _ => rfl⟩
  intro other mentioned
  have different : other ≠ name := by
    rintro rfl
    exact unmentioned result parsed mentioned
  exact (session.get_register name other image).trans (if_neg different)

/-- An image may be called `blur`, and the resolution that is not asked for may change. -/
theorem namesake_compiled_alike :
    let picture := Image.generator (.stored 0) .noise ⟨64, 64⟩
    let namesake := Image.generator (.stored 1) .circle ⟨8, 8⟩
    let session : Session := ⟨.standard, #[[], []], [("x", picture)]⟩
    ((parse "blur(x)").map fun result => (result.identifiers, result.passesDefault)) =
        .ok (["x"], false) ∧
      compile [("x", picture)] .standard "blur(x)" = .ok (.ofFilter .blur picture) ∧
      compile [("blur", namesake), ("x", picture)] { Defaults.standard with generated := ⟨2, 2⟩ }
          "blur(x)" = compile [("x", picture)] .standard "blur(x)" ∧
      (session.register "blur" namesake).compile "blur(x)" = session.compile "blur(x)" := by
  intro picture namesake session
  have read : ((parse "blur(x)").map fun result => (result.identifiers, result.passesDefault)) =
      .ok (["x"], false) := by
    decide +kernel
  have mentioned : ∀ result, parse "blur(x)" = .ok result →
      result.identifiers = ["x"] ∧ result.passesDefault = false := by
    intro result parsed
    rw [parsed] at read
    exact Prod.mk.inj (Except.ok.inj read)
  refine ⟨read, by decide +kernel, ?_, ?_⟩
  · refine (compile_depends_on_mentions "blur(x)").1 _ _ _ _ rfl ?_
    intro result parsed
    obtain ⟨only, notPassed⟩ := mentioned result parsed
    rw [only, notPassed]
    exact ⟨by decide, by simp⟩
  · apply (compile_depends_on_mentions "blur(x)").2
    intro result parsed
    rw [(mentioned result parsed).1]
    decide

end ImageGraph
