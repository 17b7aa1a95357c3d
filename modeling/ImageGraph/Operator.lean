/-!
Infix operators. Every blend mode has its own symbol, and `->` displaces. Five of the symbols also
have an arithmetic meaning between two numbers. Tiers order the operators by how tightly they
bind.
-/

set_option autoImplicit false

namespace ImageGraph

inductive BlendMode where
  | over
  | under
  | add
  | addWithAlpha
  | subtract
  | subtractWithAlpha
  | multiply
  | divide
  | power
  | gamma
  | difference
  | maximum
  | minimum
  | average
  deriving DecidableEq, Repr

namespace BlendMode

def all : List BlendMode :=
  [.over, .under, .add, .addWithAlpha, .subtract, .subtractWithAlpha, .multiply, .divide, .power,
    .gamma, .difference, .maximum, .minimum, .average]

def name : BlendMode → String
  | .over => "over"
  | .under => "under"
  | .add => "add"
  | .addWithAlpha => "addWithAlpha"
  | .subtract => "subtract"
  | .subtractWithAlpha => "subtractWithAlpha"
  | .multiply => "multiply"
  | .divide => "divide"
  | .power => "power"
  | .gamma => "gamma"
  | .difference => "difference"
  | .maximum => "maximum"
  | .minimum => "minimum"
  | .average => "average"

def symbol : BlendMode → String
  | .over => "&"
  | .under => "!&"
  | .add => "+"
  | .addWithAlpha => "++"
  | .subtract => "-"
  | .subtractWithAlpha => "--"
  | .multiply => "*"
  | .divide => "/"
  | .power => "**"
  | .gamma => "!**"
  | .difference => "%"
  | .maximum => "><"
  | .minimum => "<>"
  | .average => "~"

end BlendMode

/-- An infix operator: a blend, or a displacement of the first image by the second. -/
inductive Operator where
  | blend (mode : BlendMode)
  | displace
  deriving DecidableEq, Repr

namespace Operator

def all : List Operator :=
  [.displace, .blend .gamma, .blend .power, .blend .addWithAlpha, .blend .subtractWithAlpha,
    .blend .under, .blend .over, .blend .minimum, .blend .maximum, .blend .average,
    .blend .difference, .blend .add, .blend .subtract, .blend .multiply, .blend .divide]

def symbol : Operator → String
  | .blend mode => mode.symbol
  | .displace => "->"

def ofSymbol? (symbol : String) : Option Operator :=
  all.find? fun operator => operator.symbol == symbol

theorem mem_all (operator : Operator) : operator ∈ all := by
  rcases operator with mode | _
  · cases mode <;> decide
  · decide

theorem of_symbol (operator : Operator) : ofSymbol? operator.symbol = some operator := by
  rcases operator with mode | _
  · cases mode <;> rfl
  · rfl

/-- The result between two numbers, for the operators that have an arithmetic meaning. Division
is plain division here; its caller excludes a divisor of zero. -/
def arithmetic? : Operator → Float → Float → Option Float
  | .blend .add, first, second => some (first + second)
  | .blend .subtract, first, second => some (first - second)
  | .blend .multiply, first, second => some (first * second)
  | .blend .divide, first, second => some (first / second)
  | .blend .power, first, second => some (first.pow second)
  | _, _, _ => none

/-- How tightly an operator binds; a higher tier binds tighter. -/
def tier : Operator → Nat
  | .displace => 0
  | .blend .over | .blend .under | .blend .minimum | .blend .maximum | .blend .average
  | .blend .difference => 1
  | .blend .add | .blend .addWithAlpha | .blend .subtract | .blend .subtractWithAlpha => 2
  | .blend .multiply | .blend .divide => 3
  | .blend .power | .blend .gamma => 4

/-- The powers group from the right; all other operators group from the left. -/
def groupsRight (operator : Operator) : Bool := operator.tier == 4

end Operator

end ImageGraph
