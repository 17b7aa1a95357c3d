/-!
Kinds of images. The name of a kind is also the name of the function that builds it.
-/

set_option autoImplicit false

namespace ImageGraph

inductive Generator where
  | color
  | circle
  | rectangle
  | polygon
  | gradient
  | noise
  deriving DecidableEq, Repr

inductive Filter where
  | blur
  | levels
  | transform
  | crop
  | threshold
  | edge
  | tint
  | flip
  | clamp
  deriving DecidableEq, Repr

inductive Merger where
  | blend
  | displace
  | cross
  | lookup
  deriving DecidableEq, Repr

inductive Collage where
  | blends
  | stack
  deriving DecidableEq, Repr

def Generator.all : List Generator := [.color, .circle, .rectangle, .polygon, .gradient, .noise]

def Generator.name : Generator → String
  | .color => "color"
  | .circle => "circle"
  | .rectangle => "rectangle"
  | .polygon => "polygon"
  | .gradient => "gradient"
  | .noise => "noise"

def Filter.all : List Filter :=
  [.blur, .levels, .transform, .crop, .threshold, .edge, .tint, .flip, .clamp]

def Filter.name : Filter → String
  | .blur => "blur"
  | .levels => "levels"
  | .transform => "transform"
  | .crop => "crop"
  | .threshold => "threshold"
  | .edge => "edge"
  | .tint => "tint"
  | .flip => "flip"
  | .clamp => "clamp"

def Merger.all : List Merger := [.blend, .displace, .cross, .lookup]

def Merger.name : Merger → String
  | .blend => "blend"
  | .displace => "displace"
  | .cross => "cross"
  | .lookup => "lookup"

def Collage.all : List Collage := [.blends, .stack]

def Collage.name : Collage → String
  | .blends => "blends"
  | .stack => "stack"

inductive Arity where
  | exactly (count : Nat)
  | atLeast (count : Nat)
  deriving DecidableEq, Repr

def Arity.accepts : Arity → Nat → Bool
  | .exactly expected, count => count == expected
  | .atLeast least, count => decide (least ≤ count)

def Arity.text : Arity → String
  | .exactly count => "exactly " ++ Nat.repr count ++ plural count
  | .atLeast count => "at least " ++ Nat.repr count ++ plural count
where
  plural (count : Nat) : String := if count = 1 then " argument" else " arguments"

inductive Kind where
  | generator (source : Generator)
  | filter (effect : Filter)
  | merger (combination : Merger)
  | collage (arrangement : Collage)
  deriving DecidableEq, Repr

namespace Kind

def all : List Kind :=
  Generator.all.map generator ++ Filter.all.map filter ++ Merger.all.map merger ++
    Collage.all.map collage

def name : Kind → String
  | .generator source => source.name
  | .filter effect => effect.name
  | .merger combination => combination.name
  | .collage arrangement => arrangement.name

theorem mem_all (kind : Kind) : kind ∈ all := by
  rcases kind with source | effect | combination | arrangement
  · cases source <;> decide
  · cases effect <;> decide
  · cases combination <;> decide
  · cases arrangement <;> decide

/-- A generator takes its resolution, the others take the images that they combine. -/
def arity : Kind → Arity
  | .generator _ | .filter _ => .exactly 1
  | .merger _ => .exactly 2
  | .collage _ => .atLeast 1

end Kind

inductive ColorFunction where
  | rgb
  | rgba
  | hsv
  | hsva
  deriving DecidableEq, Repr

def ColorFunction.all : List ColorFunction := [.rgb, .rgba, .hsv, .hsva]

def ColorFunction.name : ColorFunction → String
  | .rgb => "rgb"
  | .rgba => "rgba"
  | .hsv => "hsv"
  | .hsva => "hsva"

def ColorFunction.arity : ColorFunction → Arity
  | .rgb | .hsv => .exactly 3
  | .rgba | .hsva => .exactly 4

/-- A function of the graph language: it makes an image or a color. -/
inductive Constructor where
  | image (kind : Kind)
  | color (function : ColorFunction)
  deriving DecidableEq, Repr

namespace Constructor

def all : List Constructor := Kind.all.map image ++ ColorFunction.all.map color

def name : Constructor → String
  | .image kind => kind.name
  | .color function => function.name

def arity : Constructor → Arity
  | .image kind => kind.arity
  | .color function => function.arity

def named? (name : String) : Option Constructor :=
  all.find? fun constructor => constructor.name == name

theorem named_name (constructor : Constructor) : named? constructor.name = some constructor := by
  rcases constructor with (source | effect | combination | arrangement) | function
  · cases source <;> rfl
  · cases effect <;> rfl
  · cases combination <;> rfl
  · cases arrangement <;> rfl
  · cases function <;> rfl

theorem name_of_named {name : String} {constructor : Constructor}
    (found : named? name = some constructor) : constructor.name = name := by
  simpa using List.find?_some found

end Constructor

end ImageGraph
