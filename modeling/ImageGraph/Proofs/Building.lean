import ImageGraph.Proofs.Pairs

/-!
Building expressions from pairs. A loop over binding powers puts the operands and operators of one
expression together. Everything else is built along the tree of the pairs. The builder checks what
the rules promise it, such as the name of a call, and it has an error for each promise that could be
broken. Where even its loop cannot go on, there is no result at all.
-/

set_option autoImplicit false

namespace ImageGraph.Expr

open Number (Decimal)

/-- Why pairs cannot be built into an expression, and where. -/
inductive Misfit where
  | emptyExpression
  | unknownOperator (symbol : String) (span : Span)
  | invalidNumber (text : String) (span : Span)
  | namelessCall (span : Span)
  | unexpectedRule (rule : Rule) (span : Span)

namespace Misfit

def message : Misfit → String
  | emptyExpression => "empty expression"
  | unknownOperator symbol _ => s!"unknown operator `{symbol}`"
  | invalidNumber text _ =>
      "invalid number: " ++
        if text.isEmpty then "cannot parse float from empty string" else "invalid float literal"
  | namelessCall _ => "call without a name"
  | unexpectedRule rule _ => s!"unexpected {rule.name}"

def span : Misfit → Span
  | emptyExpression => ⟨0, 0⟩
  | unknownOperator _ span | invalidNumber _ span | namelessCall span | unexpectedRule _ span =>
      span

end Misfit

/-- Building may end without any result, or with a misfit. -/
abbrev Building := ExceptT Misfit Option

/-- Where a rule stands among operands, and from which side equals group. -/
inductive Affix where
  | sign
  | left
  | right
  deriving DecidableEq, Repr

namespace Affix

/-- The rules that are no operands, from those that bind loosest to those that bind tightest. -/
def levels : List (List (Rule × Affix)) :=
  [[(.symbol .displace, left)],
    [(.symbol (.blend .over), left), (.symbol (.blend .under), left),
      (.symbol (.blend .minimum), left), (.symbol (.blend .maximum), left),
      (.symbol (.blend .average), left), (.symbol (.blend .difference), left)],
    [(.symbol (.blend .add), left), (.symbol (.blend .addWithAlpha), left),
      (.symbol (.blend .subtract), left), (.symbol (.blend .subtractWithAlpha), left)],
    [(.symbol (.blend .multiply), left), (.symbol (.blend .divide), left)],
    [(.symbol (.blend .power), right), (.symbol (.blend .gamma), right)],
    [(.minus, sign)]]

end Affix

/-- The affix of a rule and the power with which it binds, which grows by ten with each level. -/
def Rule.binding? (rule : Rule) : Option (Affix × Nat) :=
  (Affix.levels.zipIdx 1).findSome? fun level =>
    (level.1.lookup rule).map fun affix => (affix, 10 * level.2)

/-- A pair together with what it is built into as an operand. -/
structure Item where
  pair : Pair
  operand : Building Expr

namespace Item

/-- A sign in front of an operand, which may be a misfit itself. -/
def sign (item : Item) (operand : Except Misfit Expr) : Except Misfit Expr := do
  let operand ← operand
  pure (.negation operand ⟨item.pair.span.start, operand.span.stop⟩)

def join (first : Except Misfit Expr) (item : Item) (second : Except Misfit Expr) :
    Except Misfit Expr := do
  let first ← first
  let second ← second
  match Operator.ofSymbol? item.pair.text with
  | some operator => pure (.binary operator first second ⟨first.span.start, second.span.stop⟩)
  | none => throw (.unknownOperator item.pair.text item.pair.span)

mutual

/-- Take an operand, and then all operators that bind tighter than a power. Something is always
taken, which is why the loop comes to an end. -/
def climb (power : Nat) (items : List Item) :
    Option (Except Misfit Expr × { rest : List Item // rest.length < items.length }) :=
  match items with
  | [] => none
  | item :: rest =>
      match item.pair.rule.binding? with
      | some (.sign, own) => do
          let (operand, ⟨behind, shorter⟩) ← climb (own - 1) rest
          let (whole, ⟨last, atMost⟩) ← extend power (item.sign operand) behind
          pure (whole, ⟨last, by simp only [List.length_cons]; omega⟩)
      | some _ => none
      | none => do
          let operand ← item.operand.run
          let (whole, ⟨last, atMost⟩) ← extend power operand rest
          pure (whole, ⟨last, by simp only [List.length_cons]; omega⟩)
termination_by items.length

/-- Go on behind an operand as long as the next operator binds tighter than the power. -/
def extend (power : Nat) (first : Except Misfit Expr) (items : List Item) :
    Option (Except Misfit Expr × { rest : List Item // rest.length ≤ items.length }) :=
  match items with
  | [] => some (first, ⟨[], Nat.le_refl _⟩)
  | item :: rest =>
      match item.pair.rule.binding? with
      | none => none
      | some (affix, own) =>
          if power < own then do
            let (second, ⟨behind, shorter⟩) ←
              match affix with
              | .sign => none
              | .left => climb own rest
              | .right => climb (own - 1) rest
            let (whole, ⟨last, atMost⟩) ← extend power (item.join first second) behind
            pure (whole, ⟨last, by simp only [List.length_cons]; omega⟩)
          else some (first, ⟨item :: rest, Nat.le_refl _⟩)
termination_by items.length

end

def whole (items : List Item) : Building Expr := (climb 0 items).map Prod.fst

end Item

/-- The number that a text writes with digits and at most one point among them. -/
def readNumber? (chars : List Char) : Option Decimal :=
  let whole := chars.takeWhile Char.isDigit
  match chars.dropWhile Char.isDigit with
  | [] => if whole.isEmpty then none else some (.ofText whole [])
  | '.' :: fraction =>
      if fraction.all Char.isDigit && !(whole.isEmpty && fraction.isEmpty) then
        some (.ofText whole fraction)
      else none
  | _ => none

namespace Pair

def lastText (rule : Rule) (pairs : List Pair) : String :=
  ((pairs.reverse.find? (·.rule == rule)).map text).getD ""

mutual

/-- The expression whose operands and operators are the pairs inside. -/
def expression : Pair → Building Expr
  | node _ _ _ inner => Item.whole (items inner)

/-- The operand that a pair stands for. -/
def operand : Pair → Building Expr
  | node rule span text inner =>
      match rule with
      | .expression => Item.whole (items inner)
      | .number =>
          match readNumber? text.toList with
          | some decimal => pure (.number decimal.toFloat span)
          | none => throw (.invalidNumber text span)
      | .word | .label => pure (.identifier text span)
      | .resolution => pure (.resolution (lastText .width inner) (lastText .height inner) span)
      | .array => do pure (.array (← expressions inner) span)
      | .call =>
          match inner with
          | node .word _ name _ :: arguments => do
              pure (.call name (← expressions arguments) span)
          | _ => throw (.namelessCall span)
      | rule => throw (.unexpectedRule rule span)

def items : List Pair → List Item
  | [] => []
  | pair :: pairs => ⟨pair, operand pair⟩ :: items pairs

def expressions : List Pair → Building (List Expr)
  | [] => pure []
  | pair :: pairs => do
      let first ← expression pair
      let others ← expressions pairs
      pure (first :: others)

end

/-- The expression of a whole text, from the pairs that its rule has given. -/
def build (pairs : List Pair) : Building Expr :=
  match (pairs.flatMap inner).find? (·.rule == .expression) with
  | some pair => pair.expression
  | none => throw .emptyExpression

end Pair

end ImageGraph.Expr
