import ImageGraph.Text

/-!
Colors: four linear channels, nominally between zero and one.
-/

set_option autoImplicit false

namespace ImageGraph

structure Color where
  red : Float
  green : Float
  blue : Float
  alpha : Float
  deriving DecidableEq

namespace Color

def white : Color := ⟨1, 1, 1, 1⟩

def black : Color := ⟨0, 0, 0, 1⟩

def channels (color : Color) : List Float := [color.red, color.green, color.blue, color.alpha]

def text (color : Color) : String := Text.bracketed color.channels

def opaqueOf (red green blue : Float) : Color := ⟨red, green, blue, 1⟩

def grayAlpha (level alpha : Float) : Color := ⟨level, level, level, alpha⟩

def gray (level : Float) : Color := grayAlpha level 1

/-- The sixth of the color circle that a hue between zero and six falls into, from red over yellow,
green, cyan, blue and magenta. -/
def sector (hue : Float) : Int := Number.truncate (Number.floor hue)

/-- A color from hue, saturation, value and alpha. The hue counts turns of the color circle, so it
wraps at one. A tiny negative hue wraps to one itself, which is a full turn and so counts as
zero again. -/
def ofHue (hue saturation value alpha : Float) : Color :=
  let sixths := Number.wrapToOne hue * 6
  let sixths := if sixths ≥ 6 then sixths - 6 else sixths
  let part := sixths - Number.floor sixths
  let low := value * (1 - saturation)
  let falling := value * (1 - saturation * part)
  let rising := value * (1 - saturation * (1 - part))
  match sector sixths with
  | 0 => ⟨value, rising, low, alpha⟩
  | 1 => ⟨falling, value, low, alpha⟩
  | 2 => ⟨low, value, rising, alpha⟩
  | 3 => ⟨low, falling, value, alpha⟩
  | 4 => ⟨rising, low, value, alpha⟩
  | _ => ⟨value, low, falling, alpha⟩

end Color

end ImageGraph
