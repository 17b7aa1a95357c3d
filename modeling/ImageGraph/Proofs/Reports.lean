import ImageGraph.Proofs.Failure
import ImageGraph.Proofs.Planning

/-!
What errors report is so. An error says more than that a command has failed: that a name is unbound,
that a count is wrong, that a case is not among those listed. Each such statement is checked against the
session and the expression that the command evaluates, wherever the error may come from.
-/

set_option autoImplicit false

namespace ImageGraph

namespace Session

/-- The command assigns a text to a property of a named image. -/
inductive Assigns (session : Session) (command : Command) : Property → String → Prop where
  | value {path text name property : String} {image : Image} {declared : Property}
      (sides : command.sides? = some (path, text))
      (dotted : splitPath path = .ok (some (name, property)))
      (bound : session.names.get? name = some image)
      (is_declared : Settings.property? image.kind.properties property = some declared) :
      Assigns session command declared text

/-- The expression that a command evaluates and the scope that it does so in: an expression to be shown
or named, or the value of a property that is no choice. -/
inductive Evaluates (session : Session) : Command → Scope → Expr → Prop where
  | shown {text shown : String} {expression : Expr} (read : Line.read text = .expression shown)
      (parsed : parse shown = .ok expression) :
      Evaluates session (.line text) (.graph session.names session.defaults) expression
  | named {command : Command} {name text : String} {expression : Expr}
      (sides : command.sides? = some (name, text)) (undotted : splitPath name = .ok none)
      (parsed : parse text = .ok expression) :
      Evaluates session command (.graph session.names session.defaults) expression
  | value {command : Command} {declared : Property} {text : String} {expression : Expr}
      (assigns : session.Assigns command declared text)
      (computed : ∀ cases, declared.kind ≠ .choice cases)
      (parsed : parse (Text.trim text) = .ok expression) :
      Evaluates session command .numeric expression

section Evaluation

variable {session : Session} {command : Command} {scope : Scope} {expression : Expr}

end Evaluation

section Values

variable {session : Session} {command : Command} {declared : Property} {text : String}

end Values

section Commands

variable {session : Session} {command : Command} {path text : String}

end Commands

end Session

end ImageGraph
