import ImageGraph.Color

/-!
Properties of images: what kinds of values there are and how they are shown.
-/

set_option autoImplicit false

namespace ImageGraph

/-- What kind of value a property holds. A choice is one of a fixed list of cases. -/
inductive Property.Kind where
  | float
  | int
  | bool
  | point
  | size
  | rect
  | color
  | choice (cases : List String)
  deriving DecidableEq, Repr

inductive Property.Value where
  | float (number : Float)
  | int (number : Int)
  | bool (flag : Bool)
  | point (x y : Float)
  | size (width height : Float)
  | rect (x y width height : Float)
  | color (shade : Color)
  | choice (chosen : String)
  deriving DecidableEq

/-- A property: its name, its kind and its value in a new image. -/
structure Property where
  name : String
  kind : Property.Kind
  initial : Property.Value
  deriving DecidableEq

namespace Property

def Kind.name : Kind → String
  | .float => "float"
  | .int => "int"
  | .bool => "bool"
  | .point => "point"
  | .size => "size"
  | .rect => "rect"
  | .color => "color"
  | .choice _ => "enum"

def Value.fits : Value → Kind → Bool
  | .float _, .float => true
  | .int _, .int => true
  | .bool _, .bool => true
  | .point _ _, .point => true
  | .size _ _, .size => true
  | .rect _ _ _ _, .rect => true
  | .color _, .color => true
  | .choice chosen, .choice cases => cases.contains chosen
  | _, _ => false

/-- Numbers are shown plainly, several of them in brackets, a chosen case behind a dot. -/
def Value.text : Value → String
  | .float number => Number.text number
  | .int number => Int.repr number
  | .bool true => "true"
  | .bool false => "false"
  | .point x y => Text.bracketed [x, y]
  | .size width height => Text.bracketed [width, height]
  | .rect x y width height => Text.bracketed [x, y, width, height]
  | .color shade => shade.text
  | .choice chosen => Text.dotted chosen

def ofFloat (name : String) (initial : Float) : Property := ⟨name, .float, .float initial⟩

def ofInt (name : String) (initial : Int) : Property := ⟨name, .int, .int initial⟩

def ofBool (name : String) (initial : Bool) : Property := ⟨name, .bool, .bool initial⟩

def ofPoint (name : String) (x y : Float) : Property := ⟨name, .point, .point x y⟩

def ofSize (name : String) (width height : Float) : Property :=
  ⟨name, .size, .size width height⟩

def ofRect (name : String) (x y width height : Float) : Property :=
  ⟨name, .rect, .rect x y width height⟩

def ofColor (name : String) (initial : Color) : Property := ⟨name, .color, .color initial⟩

def ofChoice (name : String) (cases : List String) (initial : String) : Property :=
  ⟨name, .choice cases, .choice initial⟩

end Property

end ImageGraph
