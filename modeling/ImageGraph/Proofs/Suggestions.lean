import ImageGraph.Proofs.Failure
import ImageGraph.Proofs.Scopes

/-!
Suggestions for unknown functions. The names of all functions are in small letters and no two functions
share one, so a name that no function has is like that of one function at most, the case of letters aside.
This function is suggested, in whatever order the functions are looked through.
-/

set_option autoImplicit false

namespace ImageGraph

/-- What can be called: a function that makes an image or a color, or a numeric one. -/
inductive Callable where
  | constructor (maker : Constructor)
  | math (function : MathFunction)

namespace Callable

def name : Callable → String
  | constructor maker => maker.name
  | math function => function.name

/-- A name is that of the function, the case of ASCII letters aside. -/
def Resembles (function : Callable) (name : String) : Prop :=
  Scope.foldCase function.name = Scope.foldCase name

theorem small_letters (function : Callable) :
    Scope.foldCase function.name = function.name.toList := by
  rcases function with ((source | effect | combination | arrangement) | color) | math
  · cases source <;> rfl
  · cases effect <;> rfl
  · cases combination <;> rfl
  · cases arrangement <;> rfl
  · cases color <;> rfl
  · cases math <;> rfl

end Callable

theorem MathFunction.named_name (math : MathFunction) : named? math.name = some math := by
  cases math <;> rfl

namespace Callable

theorem name_injective {first second : Callable} (same : first.name = second.name) :
    first = second := by
  have apart (maker : Constructor) (math : MathFunction) : maker.name ≠ math.name := by
    intro same
    have noMath := maker.no_math_name
    rw [same, math.named_name] at noMath
    cases noMath
  rcases first with maker | math
  · rcases second with other | math
    · have found := maker.named_name
      rw [show maker.name = other.name from same, other.named_name] at found
      rw [Option.some.inj found]
    · exact absurd same (apart maker math)
  · rcases second with maker | other
    · exact absurd same.symm (apart maker math)
    · have found := math.named_name
      rw [show math.name = other.name from same, other.named_name] at found
      rw [Option.some.inj found]

theorem eq_of_resembles {first second : Callable} {name : String} (resembles : first.Resembles name)
    (alsoResembles : second.Resembles name) : first = second := by
  have letters := resembles.trans alsoResembles.symm
  rw [small_letters, small_letters] at letters
  exact name_injective (String.toList_injective letters)

end Callable

/-- The function that is suggested for a name if functions are looked through in a given order: the
first that the name resembles. -/
def suggestedIn (order : List Callable) (name : String) : Option String :=
  (order.map Callable.name).find? fun candidate => Scope.foldCase candidate == Scope.foldCase name

theorem suggested_in_eq_some {order : List Callable} {name suggested : String} :
    suggestedIn order name = some suggested ↔
      ∃ function ∈ order, function.name = suggested ∧ function.Resembles name := by
  have resembles_of_found {function : Callable} {suggested : String}
      (found : suggestedIn order name = some suggested) (named : function.name = suggested) :
      function.Resembles name := by
    subst named
    simpa [Callable.Resembles] using List.find?_some found
  constructor
  · intro found
    obtain ⟨function, listed, named⟩ := List.mem_map.1 (List.mem_of_find?_eq_some found)
    exact ⟨function, listed, named, resembles_of_found found named⟩
  · rintro ⟨function, listed, rfl, resembles⟩
    cases found : suggestedIn order name with
    | none =>
        have different := List.find?_eq_none.1 found _ (List.mem_map_of_mem listed)
        exact absurd (beq_iff_eq.2 resembles) different
    | some suggested =>
        -- Another function could be found first, but no other resembles the name.
        obtain ⟨other, -, named⟩ := List.mem_map.1 (List.mem_of_find?_eq_some found)
        rw [← named, Callable.eq_of_resembles (resembles_of_found found named) resembles]

/-- The order in which functions are looked through does not matter. -/
theorem suggested_in_perm {order other : List Callable} (reordered : order.Perm other)
    (name : String) : suggestedIn order name = suggestedIn other name := by
  apply Option.ext
  intro suggested
  rw [suggested_in_eq_some, suggested_in_eq_some]
  simp only [reordered.mem_iff]

namespace Scope

/-- The functions of a scope. Those that make images and colors are unknown in the numeric one. -/
def callables : Scope → List Callable
  | numeric => MathFunction.all.map .math
  | graph _ _ => Constructor.all.map .constructor ++ MathFunction.all.map .math

variable {scope : Scope} {name : String}

theorem suggestion_eq (scope : Scope) (name : String) :
    scope.suggestion? name = suggestedIn scope.callables name := by
  have names : scope.functionNames = scope.callables.map Callable.name := by
    cases scope with
    | numeric => simp [functionNames, callables, Function.comp_def, Callable.name]
    | graph names defaults => simp [functionNames, callables, Function.comp_def, Callable.name]
  rw [suggestion?, suggestedIn, names]

theorem no_constructor (unknown : ∀ function ∈ scope.callables, function.name ≠ name) :
    scope.constructor? name = none := by
  cases scope with
  | numeric => rfl
  | graph names defaults =>
      rw [constructor?, Constructor.named?, List.find?_eq_none]
      intro maker listed same
      have isCallable : Callable.constructor maker ∈ (graph names defaults).callables :=
        List.mem_append_left _ (List.mem_map_of_mem listed)
      exact unknown _ isCallable (beq_iff_eq.1 same)

theorem no_math_function (unknown : ∀ function ∈ scope.callables, function.name ≠ name) :
    MathFunction.named? name = none := by
  rw [MathFunction.named?, List.find?_eq_none]
  intro math listed same
  have isMath : Callable.math math ∈ MathFunction.all.map Callable.math :=
    List.mem_map_of_mem listed
  have isCallable : Callable.math math ∈ scope.callables := by
    cases scope with
    | numeric => exact isMath
    | graph names defaults => exact List.mem_append_right _ isMath
  exact unknown _ isCallable (beq_iff_eq.1 same)

/-- For a name that is unknown in a scope the suggestion does not depend on the order in which the
functions are looked through. There is one exactly if the name resembles that of a function of the
scope. It is the name of this function, which is the only one, and it differs from the unknown name. -/
theorem suggestion_well_defined (unknown : ∀ function ∈ scope.callables, function.name ≠ name) :
    (∀ arguments span, evaluate scope (.call name arguments span) =
      .error (.unknownFunction name (scope.suggestion? name))) ∧
    (∀ order : List Callable, order.Perm scope.callables →
      suggestedIn order name = scope.suggestion? name) ∧
    ((scope.suggestion? name).isSome = true ↔
      ∃ function ∈ scope.callables, function.Resembles name) ∧
    ∀ suggested, scope.suggestion? name = some suggested →
      suggested ≠ name ∧ ∃ function ∈ scope.callables, function.name = suggested ∧
        function.Resembles name ∧
        ∀ other ∈ scope.callables, other.Resembles name → other = function := by
  refine ⟨?_, ?_, ?_, ?_⟩
  · intro arguments span
    rw [evaluate_plain_call scope (no_constructor unknown), evaluateMath, no_math_function unknown]
    rfl
  · intro order reordered
    rw [suggestion_eq, suggested_in_perm reordered]
  · rw [suggestion_eq, Option.isSome_iff_exists]
    simp only [suggested_in_eq_some]
    constructor
    · rintro ⟨suggested, function, listed, -, resembles⟩
      exact ⟨function, listed, resembles⟩
    · rintro ⟨function, listed, resembles⟩
      exact ⟨function.name, function, listed, rfl, resembles⟩
  · intro suggested found
    rw [suggestion_eq, suggested_in_eq_some] at found
    obtain ⟨function, listed, rfl, resembles⟩ := found
    refine ⟨unknown function listed, function, listed, rfl, resembles, ?_⟩
    intro other _ otherResembles
    exact Callable.eq_of_resembles otherResembles resembles

/-- In the graph a color function is suggested for a name in capital letters, also if the functions are
looked through from the last to the first. -/
theorem capitals_suggested :
    let scope : Scope := .graph [] .standard
    (∀ function ∈ scope.callables, function.name ≠ "RGBA") ∧
      evaluate scope (.call "RGBA" [] ⟨0, 6⟩) = .error (.unknownFunction "RGBA" (some "rgba")) ∧
      suggestedIn scope.callables.reverse "RGBA" = some "rgba" := by
  intro scope
  have unknown : ∀ function ∈ scope.callables, function.name ≠ "RGBA" := by decide
  have suggested : scope.suggestion? "RGBA" = some "rgba" := by decide
  obtain ⟨fails, reordered, -, -⟩ := suggestion_well_defined unknown
  rw [suggested] at fails reordered
  exact ⟨unknown, fails [] ⟨0, 6⟩, reordered _ (List.reverse_perm _)⟩

end Scope

end ImageGraph
