import ImageGraph.Value
import ImageGraph.MathFunction
import ImageGraph.Registry

/-!
Evaluation of expressions. In the numeric scope of property values there are only numbers. In the
scope of the graph names stand for images, functions also make images and colors, and operators
combine images. Evaluation only describes images; none is stored or changed by it.
-/

set_option autoImplicit false

namespace ImageGraph

/-- Where names, functions and operators get their meaning from. -/
inductive Scope where
  | numeric
  | graph (names : Registry) (defaults : Defaults)

def pi : Float := 3.141592653589793

/-- A number that is a result must be finite. -/
def finite (number : Float) : Except Error Float :=
  if Number.isFinite number then .ok number else .error .notFinite

def Value.asNumber (complaint : Found → Complaint) (value : Value) : Except Error Float :=
  match value.number? with
  | some result => .ok result
  | none => .error (.badArgument (complaint value.found))

namespace Scope

/-- The value of a name. Images come first, so an image may hide the number `pi`. -/
def lookup (scope : Scope) (name : String) : Except Error Value :=
  let image := match scope with
    | numeric => none
    | graph names _ => names.get? name
  match image with
  | some image => .ok (.image image)
  | none =>
      if name = "pi" then .ok (.number pi)
      else
        match scope with
        | numeric => .error (.unknownSymbol name)
        | graph _ _ => .error (.imageNotFound name)

def functionNames (scope : Scope) : List String :=
  let own := match scope with
    | numeric => []
    | graph _ _ => Constructor.all.map Constructor.name
  own ++ MathFunction.all.map MathFunction.name

def foldCase (text : String) : List Char := text.toList.map Char.toLower

/-- A function whose name differs from a given one in the case of ASCII letters only. -/
def suggestion? (scope : Scope) (name : String) : Option String :=
  scope.functionNames.find? fun candidate => foldCase candidate == foldCase name

def unknownFunction (scope : Scope) (name : String) : Error :=
  .unknownFunction name (scope.suggestion? name)

end Scope

def ColorFunction.shade? : ColorFunction → List Float → Option Color
  | rgb, [red, green, blue] => some (.opaqueOf red green blue)
  | rgba, [red, green, blue, alpha] => some ⟨red, green, blue, alpha⟩
  | hsv, [hue, saturation, value] => some (.ofHue hue saturation value 1)
  | hsva, [hue, saturation, value, alpha] => some (.ofHue hue saturation value alpha)
  | _, _ => none

/-- The image that an operator makes of two. The second image covers the first and goes on beyond
its edge. -/
def Operator.combine (operator : Operator) (first second : Image) : Image :=
  let image := match operator with
    | blend mode => (Image.ofMerger .blend first second).withValue "mode" (.choice mode.name)
    | displace => (Image.ofMerger .displace first second).withValue "distance" (.float 1)
  (image.withValue "placement" (.choice "aspectFill")).withValue "extend" (.choice "hold")

/-- A resolution that is written as a literal or as a name. A name that stands for an image is not
taken for that of a resolution. -/
def writtenResolution? (names : Registry) (defaults : Defaults) :
    Expr → Option (Except Error Resolution)
  | .resolution width height _ => some ((Resolution.ofHalves width height).mapError .resolution)
  | .identifier name _ =>
      if names.contains name then none
      else if name = defaultResolutionName then some (.ok defaults.generated)
      else
        match Resolution.named? name with
        | some resolution => some (.ok resolution)
        | none => some (.error (.unknownResolution name))
  | _ => none

def computedResolution (generator : Generator) (side : Value) : Except Error Resolution := do
  let number ← side.asNumber (.resolutionArgument generator)
  (Resolution.ofSide number).mapError .resolution

def applyOperator (scope : Scope) (operator : Operator) (first second : Value) :
    Except Error Value :=
  match first.number?, second.number? with
  | some a, some b =>
      match operator.arithmetic? a b with
      | some result =>
          if operator = .blend .divide ∧ b == 0 then .error .divisionByZero
          else (finite result).map .number
      | none => combine
  | _, _ => combine
where
  combine : Except Error Value :=
    match scope with
    | .numeric => .error (.badArgument (.operands operator first.found second.found))
    | .graph _ defaults => do
        let a ← first.toImage defaults
        let b ← second.toImage defaults
        pure (.image (operator.combine a b))

mutual

/-- The value of an expression. Arguments are evaluated from the first to the last, and each is
examined before the next one is evaluated. -/
def evaluate (scope : Scope) : Expr → Except Error Value
  | .number value _ => .ok (.number value)
  | .identifier name _ => scope.lookup name
  | .resolution width height _ => .error (.misplacedResolution width height)
  | .array items _ => do pure (.numbers (← evaluateNumbers scope .arrayItem items))
  | .call function arguments _ =>
      match scope, Constructor.named? function with
      | .graph names defaults, some constructor =>
          match constructor, arguments with
          | .image (.generator kind), [argument] => do
              let resolution ← match writtenResolution? names defaults argument with
                | some written => written
                | none => do computedResolution kind (← evaluate scope argument)
              pure (.image (.ofGenerator kind resolution))
          | .image (.filter kind), [argument] => do
              let input ← (← evaluate scope argument).toImage defaults
              pure (.image (.ofFilter kind input))
          | .image (.merger kind), [first, second] => do
              let first ← (← evaluate scope first).toImage defaults
              let second ← (← evaluate scope second).toImage defaults
              pure (.image (.ofMerger kind first second))
          | .image (.collage kind), first :: others => do
              let first ← (← evaluate scope first).toImage defaults
              let others ← evaluateImages scope defaults others
              pure (.image (.ofCollage kind first others))
          | .color color, arguments =>
              if color.arity.accepts arguments.length then do
                let channels ← evaluateNumbers scope (.colorArgument color) arguments
                match color.shade? channels with
                | some shade => pure (.color shade)
                | none => .error (.argumentCount color.name color.arity channels.length)
              else .error (.argumentCount color.name color.arity arguments.length)
          | constructor, arguments =>
              .error (.argumentCount constructor.name constructor.arity arguments.length)
      | _, _ =>
          match MathFunction.named? function with
          | none => .error (scope.unknownFunction function)
          | some math =>
              if math.arity.accepts arguments.length then do
                let numbers ← evaluateNumbers scope (.mathArgument function) arguments
                match math.value? numbers with
                | some result => (finite result).map .number
                | none => .error (.argumentCount function math.arity numbers.length)
              else .error (.argumentCount function math.arity arguments.length)
  | .negation operand _ => do
      let number ← (← evaluate scope operand).asNumber .negated
      pure (.number (-number))
  | .binary operator first second _ => do
      let first ← evaluate scope first
      let second ← evaluate scope second
      applyOperator scope operator first second

def evaluateNumbers (scope : Scope) (complaint : Found → Complaint) :
    List Expr → Except Error (List Float)
  | [] => .ok []
  | first :: others => do
      let number ← (← evaluate scope first).asNumber complaint
      let numbers ← evaluateNumbers scope complaint others
      pure (number :: numbers)

def evaluateImages (scope : Scope) (defaults : Defaults) : List Expr → Except Error (List Image)
  | [] => .ok []
  | first :: others => do
      let image ← (← evaluate scope first).toImage defaults
      let images ← evaluateImages scope defaults others
      pure (image :: images)

end

def parse (text : String) : Except Error Expr := (Expr.read text).mapError (.malformed text)

def evaluateNumber (text : String) : Except Error Float := do
  (← evaluate .numeric (← parse text)).asNumber .notNumber

/-- The values of a text that must be an array of numbers. A number alone counts as an array of
one. -/
def evaluateArray (text : String) : Except Error (List Float) := do
  match ← evaluate .numeric (← parse text) with
  | .number number => pure [number]
  | .numbers items => pure items
  | other => .error (.badArgument (.notNumbers other.found))

def compile (names : Registry) (defaults : Defaults) (text : String) : Except Error Image := do
  (← evaluate (.graph names defaults) (← parse text)).toImage defaults

end ImageGraph
