import ImageGraph.Number.Decimal
import ImageGraph.Operator

/-!
Expressions of the command language. Each carries the range of the text that it was read from.
-/

set_option autoImplicit false

namespace ImageGraph

/-- A range of a text, counted in bytes. -/
structure Span where
  start : Nat
  stop : Nat
  deriving DecidableEq, Repr

namespace Span

def length (span : Span) : Nat := span.stop - span.start

def isEmpty (span : Span) : Bool := span.length == 0

end Span

/-- An expression. The halves of a resolution are kept as written until they are used. -/
inductive Expr where
  | number (value : Float) (span : Span)
  | identifier (name : String) (span : Span)
  | resolution (width height : String) (span : Span)
  | array (items : List Expr) (span : Span)
  | call (function : String) (arguments : List Expr) (span : Span)
  | negation (operand : Expr) (span : Span)
  | binary (operator : Operator) (first second : Expr) (span : Span)

namespace Expr

def span : Expr → Span
  | number _ span | identifier _ span | resolution _ _ span | array _ span | call _ _ span
  | negation _ span | binary _ _ _ span => span

def negate (operand : Expr) (start : Nat) : Expr := negation operand ⟨start, operand.span.stop⟩

def join (operator : Operator) (first second : Expr) : Expr :=
  binary operator first second ⟨first.span.start, second.span.stop⟩

end Expr

end ImageGraph
