import ImageGraph.Expr.Token
import ImageGraph.Expr.Chain

/-!
Reading expressions. The reader takes one token after the other. Its state holds the brackets that
are open, the chain that is unfinished in each of them, and whether an operand must come next. So
what may follow depends on the state alone, and the first token that may not follow is the fault
that is reported.
-/

set_option autoImplicit false

namespace ImageGraph.Expr

/-- What a reader may expect. Directly behind an opening bracket or a comma, and at the start, it is
a whole expression. Behind an operator or a minus sign it is an operand. Behind an operand it is an
operator, and outside all brackets also the end. -/
inductive Expected where
  | expression
  | operand
  | operator
  | operatorOrEnd
  deriving DecidableEq, Repr

def Expected.operatorTerm : Operator → String
  | .displace => "displace"
  | .blend .addWithAlpha => "add_alpha"
  | .blend .subtractWithAlpha => "sub_alpha"
  | .blend mode => mode.name

def Expected.terms : Expected → List String
  | expression => ["expr"]
  | operand => ["array", "res_width", "res_name", "number", "ident", "neg"]
  | operator => Operator.all.map operatorTerm
  | operatorOrEnd => "EOI" :: Operator.all.map operatorTerm

def enumerate : List String → String
  | [] => ""
  | [only] => only
  | [first, second] => first ++ " or " ++ second
  | many => String.intercalate ", " many.dropLast ++ ", or " ++ many.getLastD ""

/-- Where a text stops being an expression, and what was expected there. -/
structure Fault where
  offset : Nat
  expected : Expected
  deriving DecidableEq, Repr

/-- The place alone is marked, and none of the text. -/
def Fault.span (fault : Fault) : Span := ⟨fault.offset, fault.offset⟩

def Fault.message (fault : Fault) : String := "expected " ++ enumerate fault.expected.terms

inductive Bracket where
  | group
  | array
  | call (function : String)
  deriving DecidableEq, Repr

/-- The unfinished part of the text inside one pair of brackets, or outside all of them. Everything
is kept with the latest first. -/
structure Level where
  /-- The finished items in front of the last comma. -/
  items : List Expr
  /-- The operands of the unfinished chain, each with the operator behind it. -/
  links : List (Expr × Operator)
  /-- The offsets of the minus signs before the next operand. -/
  minuses : List Nat

namespace Level

def fresh : Level := ⟨[], [], []⟩

/-- An operand together with the minus signs in front of it. -/
def signed (level : Level) (operand : Expr) : Expr := level.minuses.foldl negate operand

def chain (level : Level) (last : Expr) : Expr := (Chain.ofLinks level.links last).expr

def allItems (level : Level) (last : Expr) : List Expr := (level.chain last :: level.items).reverse

def extend (level : Level) (last : Expr) (operator : Operator) : Level :=
  { level with links := (last, operator) :: level.links, minuses := [] }

def nextItem (level : Level) (last : Expr) : Level := ⟨level.chain last :: level.items, [], []⟩

/-- Whether a chain has begun, so that an operand must follow and not any expression. -/
def isBegun (level : Level) : Bool := !(level.links.isEmpty && level.minuses.isEmpty)

/-- Whether the closing bracket of an empty list may follow. -/
def mayCloseEmpty (level : Level) : Bool := level.items.isEmpty && !level.isBegun

end Level

/-- An open bracket, where it began, and what it interrupted. -/
structure Open where
  bracket : Bracket
  start : Nat
  outside : Level

/-- What may come next: an operand, or something behind an operand. Behind a word that is not yet
known to be a name or a function, an opening parenthesis may come too. -/
inductive Phase where
  | operand
  | word (name : String) (span : Span)
  | operator (latest : Expr)

/-- The state of a reader, the innermost bracket first. -/
structure State where
  opened : List Open
  level : Level
  phase : Phase

namespace State

def initial : State := ⟨[], .fresh, .operand⟩

/-- The operand that has just been read, with its minus signs. -/
def latest? (state : State) : Option Expr :=
  match state.phase with
  | .operand => none
  | .word name span => some (state.level.signed (.identifier name span))
  | .operator latest => some latest

def expected (state : State) : Expected :=
  match state.phase with
  | .operand => if state.level.isBegun then .operand else .expression
  | _ => if state.opened.isEmpty then .operatorOrEnd else .operator

def complete (state : State) (operand : Expr) : State :=
  { state with phase := .operator (state.level.signed operand) }

def enter (state : State) (bracket : Bracket) (start : Nat) : State :=
  ⟨⟨bracket, start, state.level⟩ :: state.opened, .fresh, .operand⟩

def leave (opened : List Open) (outside : Level) (operand : Expr) : State :=
  State.complete ⟨opened, outside, .operand⟩ operand

/-- The items of the innermost brackets, if they may be closed now. -/
def closing? (state : State) : Option (List Expr) :=
  match state.latest? with
  | some latest => some (state.level.allItems latest)
  | none => if state.level.mayCloseEmpty then some [] else none

/-- A parenthesis closes. The arguments of a call may be missing, the expression in a group may
not. -/
def closeParen? (state : State) (stop : Nat) : Option State :=
  match state.opened with
  | ⟨.call function, start, outside⟩ :: opened =>
      state.closing?.map fun items => leave opened outside (.call function items ⟨start, stop⟩)
  | ⟨.group, _, outside⟩ :: opened =>
      state.latest?.map fun latest => leave opened outside (state.level.chain latest)
  | _ => none

def closeBracket? (state : State) (stop : Nat) : Option State :=
  match state.opened with
  | ⟨.array, start, outside⟩ :: opened =>
      state.closing?.map fun items => leave opened outside (.array items ⟨start, stop⟩)
  | _ => none

def comma? (state : State) : Option State :=
  match state.opened with
  | ⟨.group, _, _⟩ :: _ | [] => none
  | _ =>
      state.latest?.map fun latest =>
        { state with level := state.level.nextItem latest, phase := .operand }

def atom? : Token → Span → Option Expr
  | .number decimal, span => some (.number decimal.toFloat span)
  | .label name, span => some (.identifier name span)
  | .resolution width height, span => some (.resolution width height span)
  | _, _ => none

def stepOperand (state : State) (placed : Placed) : Option State :=
  match placed.token with
  | .minus =>
      some { state with level.minuses := placed.span.start :: state.level.minuses }
  | .word name => some { state with phase := .word name placed.span }
  | .openParen => some (state.enter .group placed.span.start)
  | .openBracket => some (state.enter .array placed.span.start)
  | .closeParen => state.closeParen? placed.span.stop
  | .closeBracket => state.closeBracket? placed.span.stop
  | token => (atom? token placed.span).map state.complete

def stepOperator (state : State) (placed : Placed) : Option State :=
  match placed.token with
  | .operator operator =>
      state.latest?.map fun latest =>
        { state with level := state.level.extend latest operator, phase := .operand }
  | .comma => state.comma?
  | .closeParen => state.closeParen? placed.span.stop
  | .closeBracket => state.closeBracket? placed.span.stop
  | .openParen =>
      match state.phase with
      | .word name span => some (state.enter (.call name) span.start)
      | _ => none
  | _ => none

def step (state : State) (placed : Placed) : Except Fault State :=
  let next :=
    match state.phase with
    | .operand => state.stepOperand placed
    | _ => state.stepOperator placed
  match next with
  | some state => .ok state
  | none => .error ⟨placed.span.start, state.expected⟩

def result? (state : State) : Option Expr :=
  if state.opened.isEmpty then state.latest?.map state.level.chain else none

def finish (state : State) (scan : Scan) : Except Fault Expr :=
  match (if scan.complete then state.result? else none) with
  | some expression => .ok expression
  | none => .error ⟨scan.stop, state.expected⟩

end State

def readChars (chars : List Char) : Except Fault Expr := do
  let scan := Token.scan false 0 chars
  let state ← scan.tokens.foldlM State.step .initial
  state.finish scan

def read (text : String) : Except Fault Expr := readChars text.toList

end ImageGraph.Expr
