import ImageGraph.Kind
import ImageGraph.Number.Scaled

/-!
Numeric functions. Angles are in radians.
-/

set_option autoImplicit false

namespace ImageGraph

inductive MathFunction where
  | abs
  | sqrt
  | sin
  | cos
  | tan
  | floor
  | ceil
  | round
  | min
  | max
  | pow
  deriving DecidableEq, Repr

namespace MathFunction

def all : List MathFunction :=
  [.abs, .sqrt, .sin, .cos, .tan, .floor, .ceil, .round, .min, .max, .pow]

def name : MathFunction → String
  | abs => "abs"
  | sqrt => "sqrt"
  | sin => "sin"
  | cos => "cos"
  | tan => "tan"
  | floor => "floor"
  | ceil => "ceil"
  | round => "round"
  | min => "min"
  | max => "max"
  | pow => "pow"

def arity : MathFunction → Arity
  | min | max => .atLeast 1
  | pow => .exactly 2
  | _ => .exactly 1

def named? (name : String) : Option MathFunction := all.find? fun function => function.name == name

def ofOne : MathFunction → Float → Float
  | abs, number => number.abs
  | sqrt, number => number.sqrt
  | sin, number => number.sin
  | cos, number => number.cos
  | tan, number => number.tan
  | floor, number => Number.floor number
  | ceil, number => Number.ceil number
  | round, number => Number.round number
  | _, number => number

/-- The least number; of equal ones the first. -/
def least (numbers : List Float) : Float :=
  numbers.foldl (fun least number => if number < least then number else least) (1 / 0)

/-- The greatest number; of equal ones the first. -/
def greatest (numbers : List Float) : Float :=
  numbers.foldl (fun greatest number => if greatest < number then number else greatest) (-1 / 0)

def value? : MathFunction → List Float → Option Float
  | min, first :: others => some (least (first :: others))
  | max, first :: others => some (greatest (first :: others))
  | pow, [base, exponent] => some (base.pow exponent)
  | min, _ | max, _ | pow, _ => none
  | function, [number] => some (function.ofOne number)
  | _, _ => none

end MathFunction

end ImageGraph
