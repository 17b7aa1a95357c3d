import ImageGraph.Image

/-!
Values of expressions, and how a value becomes an image. A number is a gray level, two numbers are
a gray level with alpha, three or four are the channels of a color, and a color is an image of that
one color.
-/

set_option autoImplicit false

namespace ImageGraph

inductive Value where
  | number (value : Float)
  | numbers (items : List Float)
  | color (shade : Color)
  | image (picture : Image)

/-- The resolutions that a session is configured with: that of generators which ask for the default
one, and that of images made from a color. -/
structure Defaults where
  generated : Resolution
  constant : Resolution
  deriving DecidableEq

def Defaults.standard : Defaults := ⟨.square 1024, .square 1⟩

def Image.ofColor (defaults : Defaults) (shade : Color) : Image :=
  (ofGenerator .color defaults.constant).withValue "color" (.color shade)

namespace Value

def found : Value → Found
  | number value => .number value
  | numbers items => .numbers items.length
  | color shade => .color shade
  | image picture => .image picture.kind

def number? : Value → Option Float
  | number value => some value
  | _ => none

inductive Pictorial where
  | color (shade : Color)
  | image (picture : Image)

def pictorial : Value → Except Error Pictorial
  | image picture => .ok (.image picture)
  | color shade => .ok (.color shade)
  | number level => .ok (.color (.gray level))
  | numbers [level, alpha] => .ok (.color (.grayAlpha level alpha))
  | numbers [red, green, blue] => .ok (.color (.opaqueOf red green blue))
  | numbers [red, green, blue, alpha] => .ok (.color ⟨red, green, blue, alpha⟩)
  | numbers items => .error (.notAnImage (.numbers items.length))

def toImage (defaults : Defaults) (value : Value) : Except Error Image :=
  value.pictorial.map fun
    | .image picture => picture
    | .color shade => .ofColor defaults shade

end Value

end ImageGraph
