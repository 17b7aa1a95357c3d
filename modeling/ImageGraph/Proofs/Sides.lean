import ImageGraph.Proofs.Combining
import ImageGraph.Proofs.Derivation
import ImageGraph.Proofs.Dimensions
import ImageGraph.Proofs.Overflow

/-!
Resolutions as arguments of generators. An argument is read by the rules of expressions, where a side is
a double, and the text of a setting by rules of its own, where it is a whole number of 32 bits. Doubles
hold all whole numbers of 32 bits, and what a larger number is rounded to is too large too, so the two
ways to read agree on every text that both of them are meant for.
-/

set_option autoImplicit false

namespace ImageGraph

namespace Number

end Number

open Expr.Token (IsDigits Spelling)

namespace Resolution

variable {text : String}

end Resolution

def Generator.callText (source : Generator) (text : String) : String :=
  source.name ++ "(" ++ text ++ ")"

/-- What the call of a generator makes of a text and what the text is read as alone: the same
resolution, or the same part is at fault. -/
inductive Generator.Agrees (source : Generator) :
    Except Error Image → Except Resolution.Fault Resolution → Prop where
  | resolution (resolution : Resolution) :
      Agrees source (.ok (.ofGenerator source resolution)) (.ok resolution)
  | fault (part : Resolution.Part) (argument text : String) :
      Agrees source (.error (.resolution ⟨part, argument⟩)) (.error ⟨part, text⟩)

section Arguments

variable {names : Registry} {defaults : Defaults} {text : String} {argument : Expr}

end Arguments

end ImageGraph
