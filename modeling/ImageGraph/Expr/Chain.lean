import ImageGraph.Expr

/-!
Chains of operands and infix operators, and the tree that the tiers of the operators give them.
The operands of a chain are opaque here, also those that were written in parentheses.
-/

set_option autoImplicit false

namespace ImageGraph.Expr

structure Chain (Operand : Type) where
  first : Operand
  rest : List (Operator × Operand)

inductive Grouping (Operand : Type) where
  | operand (operand : Operand)
  | join (operator : Operator) (left right : Grouping Operand)

namespace Grouping

variable {Operand : Type}

/-- Whether an operator takes a join on its left as part of its own left operand. It does not when
the join binds looser, and among equals when they group from the right. -/
def takes (operator left : Operator) : Bool :=
  operator.tier < left.tier || (operator.tier == left.tier && !left.groupsRight)

/-- Put one more operator and operand behind a grouping. They go down its right edge, past every
join that the operator does not take whole. -/
def attach : Grouping Operand → Operator → Operand → Grouping Operand
  | operand last, operator, next => join operator (operand last) (operand next)
  | join upper left right, operator, next =>
      if takes operator upper then join operator (join upper left right) (operand next)
      else join upper left (attach right operator next)

/-- The expression of a grouping, each join ranging from its first to its last operand. -/
def expr : Grouping Expr → Expr
  | operand only => only
  | join operator left right => Expr.join operator left.expr right.expr

end Grouping

namespace Chain

variable {Operand : Type}

/-- The chain of links read so far, the latest first, and a last operand. -/
def ofLinks (links : List (Operand × Operator)) (last : Operand) : Chain Operand :=
  links.foldl (fun chain link => ⟨link.1, (link.2, chain.first) :: chain.rest⟩) ⟨last, []⟩

/-- The grouping of a chain, built from the left. -/
def grouping (chain : Chain Operand) : Grouping Operand :=
  chain.rest.foldl (fun tree link => tree.attach link.1 link.2) (.operand chain.first)

def expr (chain : Chain Expr) : Expr := chain.grouping.expr

end Chain

end ImageGraph.Expr
