import ImageGraph.Kind
import ImageGraph.Property
import ImageGraph.Resolution
import ImageGraph.Expr.Reader

/-!
Reasons for which a command fails, and how each is reported: a message, a code and in some cases
a help text.
-/

set_option autoImplicit false

namespace ImageGraph

inductive Found where
  | number (value : Float)
  | numbers (count : Nat)
  | color (shade : Color)
  | image (kind : Kind)
  deriving DecidableEq

def Found.text : Found → String
  | .number value => Number.text value
  | .numbers count => s!"an array of {count} number" ++ (if count = 1 then "" else "s")
  | .color shade => s!"color {shade.text}"
  | .image kind => s!"node {kind.name}"

inductive Complaint where
  | operands (operator : Operator) (first second : Found)
  | arrayItem (found : Found)
  | mathArgument (function : String) (found : Found)
  | colorArgument (function : ColorFunction) (found : Found)
  | resolutionArgument (generator : Generator) (found : Found)
  | negated (found : Found)
  | notNumber (found : Found)
  | notNumbers (found : Found)
  | misfit (value : Property.Value) (kind : Property.Kind) (property : String)
  deriving DecidableEq

def Complaint.text : Complaint → String
  | .operands operator first second =>
      s!"operator {operator.symbol} needs two numbers, got {first.text} and {second.text}"
  | .arrayItem found => s!"array elements must be numbers, got {found.text}"
  | .mathArgument function found => s!"{function} expects numbers, got {found.text}"
  | .colorArgument function found => s!"{function.name} takes numbers, got {found.text}"
  | .resolutionArgument generator found =>
      s!"{generator.name} needs a resolution, got {found.text}"
  | .negated found => s!"cannot negate {found.text}"
  | .notNumber found => s!"expected a number, got {found.text}"
  | .notNumbers found => s!"expected an array of numbers, got {found.text}"
  | .misfit value kind property => s!"{value.text} is not a valid {kind.name} for {property}"

inductive Shape where
  | point
  | size
  | rect
  | color
  deriving DecidableEq, Repr

def Shape.components : Shape → List String
  | .point => ["x", "y"]
  | .size => ["w", "h"]
  | .rect => ["x", "y", "w", "h"]
  | .color => ["r", "g", "b", "a"]

def Shape.text (shape : Shape) : String := "[" ++ String.intercalate "," shape.components ++ "]"

inductive Error where
  | malformed (text : String) (fault : Expr.Fault)
  | unknownFunction (name : String) (suggestion : Option String)
  | argumentCount (name : String) (expected : Arity) (got : Nat)
  | resolution (fault : Resolution.Fault)
  | unknownResolution (name : String)
  | misplacedResolution (width height : String)
  | badArgument (complaint : Complaint)
  | notAnImage (found : Found)
  | unknownSymbol (name : String)
  | divisionByZero
  | notFinite
  | imageNotFound (name : String)
  | propertyNotFound (image property : String) (valid : List String)
  | caseNotFound (value : String) (cases : List String)
  | caseWithoutDot (property suggested : String)
  | componentCount (property : String) (shape : Shape) (got : Nat)
  | emptyName
  | emptyValue (name : String)
  | invalidName (name : String)
  | nestedPath (path : String)
  deriving DecidableEq

instance decidableEqResult {Failure Result : Type} [DecidableEq Failure] [DecidableEq Result] :
    DecidableEq (Except Failure Result)
  | .ok first, .ok second => decidable_of_iff (first = second) (by simp)
  | .error first, .error second => decidable_of_iff (first = second) (by simp)
  | .ok _, .error _ => isFalse (by simp)
  | .error _, .ok _ => isFalse (by simp)

def defaultResolutionName : String := "default"

namespace Error

/-- A list of what would have been accepted, each entry behind a dot. -/
def validListing (entries : List String) : String :=
  "valid: " ++ String.intercalate " " (entries.map Text.dotted)

def message : Error → String
  | malformed _ fault => s!"syntax error: {fault.message}"
  | unknownFunction name _ => s!"unknown function: {name}"
  | argumentCount name expected got => s!"{name} takes {expected.text}, got {got}"
  | resolution fault =>
      s!"invalid resolution {fault.part.name}: `{fault.text}` is not a positive whole number"
  | unknownResolution name => s!"unknown resolution: {name}"
  | misplacedResolution width height =>
      s!"resolution `{width}x{height}` can only be passed to a generator"
  | badArgument complaint => s!"bad argument: {complaint.text}"
  | notAnImage found => s!"cannot use {found.text} as an image or a color"
  | unknownSymbol name => s!"unknown symbol: {name}"
  | divisionByZero => "division by zero"
  | notFinite => "result is NaN or infinite"
  | imageNotFound name => s!"node not found: {name}"
  | propertyNotFound image property _ => s!"property {property} of node {image} not found"
  | caseNotFound value _ => s!"enum value {value} not found"
  | caseWithoutDot property suggested =>
      s!"enum values start with a dot, e.g. `{property} = .{suggested}`"
  | componentCount property shape got => s!"{property} needs {shape.text}, got {got} value(s)"
  | emptyName => "assignment has no name"
  | emptyValue name => s!"assignment to {name} has no value"
  | invalidName name => s!"invalid node name: {name}"
  | nestedPath path => s!"nested property paths are not supported: {path}"

/-- The stage of a command that fails, and the reason in one word. -/
def code : Error → String
  | malformed _ _ => "pixlab::compile::syntax"
  | unknownFunction _ _ => "pixlab::compile::unknown_function"
  | argumentCount _ _ _ => "pixlab::compile::argument_count"
  | resolution _ => "pixlab::compile::resolution"
  | unknownResolution _ => "pixlab::compile::unknown_resolution"
  | misplacedResolution _ _ => "pixlab::compile::misplaced_resolution"
  | badArgument _ => "pixlab::eval::bad_argument"
  | notAnImage _ => "pixlab::eval::unknown_argument"
  | unknownSymbol _ => "pixlab::eval::unknown_symbol"
  | divisionByZero => "pixlab::eval::division_by_zero"
  | notFinite => "pixlab::eval::invalid_numeric"
  | imageNotFound _ => "pixlab::assign::node_not_found"
  | propertyNotFound _ _ _ => "pixlab::assign::property_not_found"
  | caseNotFound _ _ => "pixlab::assign::enum_value_not_found"
  | caseWithoutDot _ _ => "pixlab::assign::enum_syntax"
  | componentCount _ _ _ => "pixlab::assign::arity_mismatch"
  | emptyName => "pixlab::assign::empty_name"
  | emptyValue _ => "pixlab::assign::empty_value"
  | invalidName _ => "pixlab::assign::invalid_name"
  | nestedPath _ => "pixlab::assign::nested_path"

def knownResolutions : String :=
  "known resolutions: " ++
    String.intercalate ", " (defaultResolutionName :: Resolution.standard.map Prod.fst)

def help? : Error → Option String
  | unknownFunction _ suggestion => suggestion.map fun name => s!"did you mean `{name}`?"
  | resolution _ => some "write resolutions as `512`, `1920x1080` or a name like `hd`"
  | unknownResolution _ => some knownResolutions
  | notAnImage _ => some "pass a node name, a number, or an array of 2, 3 or 4 numbers"
  | propertyNotFound _ _ valid => some (validListing valid)
  | caseNotFound _ cases => some (validListing cases)
  | invalidName _ =>
      some "names start with a letter or `_` and contain only letters, digits and `_`"
  | nestedPath _ => some "use exactly one dot: `name.property`"
  | _ => none

end Error

end ImageGraph
