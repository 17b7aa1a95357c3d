import ImageGraph.Proofs.Reading

/-!
Precedence. A chain could be read as many trees. In one of them all symbols keep their places, every
minus sign is applied to the next primary, and every join stands where the tier of the operator above
it admits it. No other tree is like that, and the reader builds its expression.
-/

set_option autoImplicit false

namespace ImageGraph.Expr

/-- A symbol of a chain. What stands in brackets is part of one primary. -/
inductive Symbol where
  | minus (start : Nat)
  | primary (value : Expr)
  | operator (operator : Operator)

def Operand.symbols (operand : Operand) : List Symbol :=
  operand.minuses.map .minus ++ [.primary operand.primary]

/-- The symbols of links, each with its operator in front. -/
def linkSymbols (links : List (Operator × Operand)) : List Symbol :=
  links.flatMap fun link => .operator link.1 :: link.2.symbols

def Chain.symbols (chain : Chain Operand) : List Symbol :=
  chain.first.symbols ++ linkSymbols chain.rest

/-- A tree over the primaries of a chain, with minus signs and joins in any place. -/
inductive Tree where
  | primary (value : Expr)
  | minus (start : Nat) (below : Tree)
  | join (operator : Operator) (left right : Tree)

namespace Tree

def symbols : Tree → List Symbol
  | primary value => [.primary value]
  | minus start below => .minus start :: below.symbols
  | join operator left right => left.symbols ++ .operator operator :: right.symbols

/-- The expression of a tree. A minus sign begins it where it stands, and a join ranges from the
beginning of its left side to the end of its right one. -/
def expr : Tree → Expr
  | primary value => value
  | minus start below => .negation below.expr ⟨start, below.expr.span.stop⟩
  | join operator left right =>
      .binary operator left.expr right.expr ⟨left.expr.span.start, right.expr.span.stop⟩

/-- A primary behind minus signs, with no operator in it. -/
def IsOperand : Tree → Prop
  | primary _ => True
  | minus _ below => below.IsOperand
  | join _ _ _ => False

/-- Every minus sign is applied to what follows it up to the next primary. -/
def SignsTight : Tree → Prop
  | primary _ => True
  | minus _ below => below.IsOperand
  | join _ left right => left.SignsTight ∧ right.SignsTight

def operator? : Tree → Option Operator
  | join operator _ _ => some operator
  | _ => none

/-- Every join stands where the operator above it admits it. -/
def Tiered : Tree → Prop
  | primary _ => True
  | minus _ below => below.Tiered
  | join operator left right =>
      (∀ below, left.operator? = some below → operator.AdmitsLeft below) ∧
        (∀ below, right.operator? = some below → operator.AdmitsRight below) ∧
        left.Tiered ∧ right.Tiered

/-- The tree that a chain has to be read as. -/
structure Groups (tree : Tree) (chain : Chain Operand) : Prop where
  symbols : tree.symbols = chain.symbols
  signs : tree.SignsTight
  tiered : tree.Tiered

end Tree

namespace Chain

theorem symbols_append (left right : Chain Operand) (operator : Operator) :
    (left.append operator right).symbols =
      left.symbols ++ .operator operator :: right.symbols := by
  simp [symbols, linkSymbols, append]

theorem operand_of_symbols {first second : Operand} {rest others : List Symbol}
    (same : first.symbols ++ rest = second.symbols ++ others) :
    first = second ∧ rest = others := by
  obtain ⟨minuses, primary⟩ := first
  obtain ⟨minuses', primary'⟩ := second
  induction minuses generalizing minuses' with
  | nil =>
      cases minuses' with
      | nil => simpa [Operand.symbols] using same
      | cons start minuses' => simp [Operand.symbols] at same
  | cons start minuses induction =>
      cases minuses' with
      | nil => simp [Operand.symbols] at same
      | cons start' minuses' =>
          simp only [Operand.symbols, List.map_cons, List.cons_append, List.cons.injEq,
            Symbol.minus.injEq] at same
          obtain ⟨operands, rests⟩ := induction minuses' same.2
          cases operands
          exact ⟨by rw [same.1], rests⟩

theorem of_symbols {chain other : Chain Operand} (same : chain.symbols = other.symbols) :
    chain = other := by
  have links (rest rest' : List (Operator × Operand))
      (sameLinks : linkSymbols rest = linkSymbols rest') : rest = rest' := by
    induction rest generalizing rest' with
    | nil => cases rest' <;> simp_all [linkSymbols]
    | cons link rest induction =>
        cases rest' with
        | nil => simp [linkSymbols] at sameLinks
        | cons link' rest' =>
            simp only [linkSymbols, List.flatMap_cons, List.cons_append, List.cons.injEq,
              Symbol.operator.injEq] at sameLinks
            obtain ⟨operands, rests⟩ := operand_of_symbols sameLinks.2
            rw [Prod.ext sameLinks.1 operands, induction rest' rests]
  obtain ⟨first, rest⟩ := chain
  obtain ⟨first', rest'⟩ := other
  obtain ⟨rfl, sameLinks⟩ := operand_of_symbols same
  rw [links rest rest' sameLinks]

end Chain

namespace Grouping

variable {First Second : Type}

def map (change : First → Second) : Grouping First → Grouping Second
  | operand only => operand (change only)
  | join operator left right => join operator (left.map change) (right.map change)

theorem map_attach (change : First → Second) (grouping : Grouping First) (operator : Operator)
    (next : First) :
    (grouping.attach operator next).map change =
      (grouping.map change).attach operator (change next) := by
  induction grouping with
  | operand last => rfl
  | join upper left right _ induction =>
      simp only [attach, map]
      split
      · rfl
      · rw [map, induction]

theorem map_grouping (change : First → Second) (chain : Chain First) :
    chain.grouping.map change = (chain.map change).grouping := by
  induction chain using Chain.by_extension with
  | single only => rfl
  | extended chain operator next induction =>
      rw [Chain.map_extend, Chain.grouping_extend, Chain.grouping_extend, map_attach, induction]

/-- The operands of a grouping are trees without joins. -/
def tree : Grouping Operand → Tree
  | operand only => only.minuses.foldr .minus (.primary only.primary)
  | join operator left right => .join operator left.tree right.tree

theorem tree_expr (grouping : Grouping Operand) :
    grouping.tree.expr = (grouping.map Operand.expr).expr := by
  induction grouping with
  | operand only =>
      obtain ⟨minuses, primary⟩ := only
      simp only [tree, map, expr, Operand.expr]
      induction minuses with
      | nil => rfl
      | cons start minuses induction => exact congrArg (Expr.negate · start) induction
  | join operator left right leftInduction rightInduction =>
      simp only [tree, map, expr, Tree.expr, Expr.join, leftInduction, rightInduction]

theorem tree_symbols (grouping : Grouping Operand) :
    grouping.tree.symbols = grouping.chain.symbols := by
  induction grouping with
  | operand only =>
      obtain ⟨minuses, primary⟩ := only
      induction minuses with
      | nil => rfl
      | cons start minuses induction => exact congrArg (.minus start :: ·) induction
  | join operator left right leftInduction rightInduction =>
      rw [chain, Chain.symbols_append, ← leftInduction, ← rightInduction]
      rfl

theorem operand_tree (only : Operand) :
    (operand only).tree.IsOperand ∧ (operand only).tree.operator? = none ∧
      (operand only).tree.Tiered := by
  obtain ⟨minuses, primary⟩ := only
  induction minuses with
  | nil => exact ⟨trivial, rfl, trivial⟩
  | cons start minuses induction => exact ⟨induction.1, rfl, induction.2.2⟩

theorem tree_operator (grouping : Grouping Operand) :
    grouping.tree.operator? = grouping.operator? := by
  cases grouping with
  | operand only => exact (operand_tree only).2.1
  | join operator left right => rfl

theorem tree_tiered (grouping : Grouping Operand) :
    grouping.tree.Tiered ↔ grouping.Tiered := by
  induction grouping with
  | operand only => exact iff_of_true (operand_tree only).2.2 trivial
  | join operator left right leftInduction rightInduction =>
      simp only [tree, Tree.Tiered, Tiered, tree_operator, leftInduction, rightInduction]

theorem tree_signs (grouping : Grouping Operand) : grouping.tree.SignsTight := by
  induction grouping with
  | operand only =>
      obtain ⟨minuses, primary⟩ := only
      cases minuses with
      | nil => trivial
      | cons start minuses => exact (operand_tree ⟨minuses, primary⟩).1
  | join operator left right leftInduction rightInduction =>
      exact ⟨leftInduction, rightInduction⟩

/-- Where all minus signs are tight, the tree is one of operands. -/
theorem exists_tree (tree : Tree) (signs : tree.SignsTight) :
    ∃ grouping : Grouping Operand, grouping.tree = tree := by
  have operands (tree : Tree) (isOperand : tree.IsOperand) :
      ∃ only : Operand, (operand only).tree = tree := by
    induction tree with
    | primary value => exact ⟨⟨[], value⟩, rfl⟩
    | minus start below induction =>
        obtain ⟨⟨minuses, primary⟩, rfl⟩ := induction isOperand
        exact ⟨⟨start :: minuses, primary⟩, rfl⟩
    | join operator left right => exact isOperand.elim
  induction tree with
  | primary value => exact ⟨operand ⟨[], value⟩, rfl⟩
  | minus start below =>
      obtain ⟨only, same⟩ := operands (.minus start below) signs
      exact ⟨operand only, same⟩
  | join operator left right leftInduction rightInduction =>
      obtain ⟨first, rfl⟩ := leftInduction signs.1
      obtain ⟨second, rfl⟩ := rightInduction signs.2
      exact ⟨join operator first second, rfl⟩

theorem eq_of_groups {tree : Tree} {chain : Chain Operand} (groups : tree.Groups chain) :
    tree = chain.grouping.tree := by
  obtain ⟨grouping, rfl⟩ := exists_tree tree groups.signs
  have same : grouping.chain = chain := by
    apply Chain.of_symbols
    rw [← tree_symbols, groups.symbols]
  have tiered := (tree_tiered grouping).1 groups.tiered
  rw [← same, tiered.eq_grouping]

end Grouping

theorem tree_grouping_expr (chain : Chain Operand) :
    chain.grouping.tree.expr = chain.signedExpr := by
  rw [Grouping.tree_expr, Grouping.map_grouping]
  rfl

end ImageGraph.Expr
