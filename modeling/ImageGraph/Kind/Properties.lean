import ImageGraph.Kind
import ImageGraph.Operator
import ImageGraph.Property

/-!
The properties of each kind of image, in the order in which they are listed and stored.
-/

set_option autoImplicit false

namespace ImageGraph

/-- What an image shows beyond its edge. -/
def extendCases : List String := ["hold", "zero", "repeat", "mirror"]

def placementCases : List String := ["fill", "aspectFit", "aspectFill", "center"]

def blendModeCases : List String := BlendMode.all.map BlendMode.name

def Generator.properties : Generator → List Property
  | .color => [.ofColor "color" .white]
  | .circle =>
      [.ofFloat "radius" 0.25,
       .ofPoint "position" 0 0,
       .ofFloat "edgeRadius" 0,
       .ofColor "color" .white,
       .ofColor "backgroundColor" .black]
  | .rectangle =>
      [.ofSize "size" 0.5 0.5,
       .ofPoint "position" 0 0,
       .ofFloat "cornerRadius" 0,
       .ofColor "color" .white,
       .ofColor "backgroundColor" .black]
  | .polygon =>
      [.ofInt "count" 3,
       .ofFloat "radius" 0.25,
       .ofFloat "rotation" 0,
       .ofPoint "position" 0 0,
       .ofColor "color" .white,
       .ofColor "backgroundColor" .black]
  | .gradient =>
      [.ofChoice "direction" ["horizontal", "vertical", "radial", "angle"] "horizontal",
       .ofFloat "scale" 1,
       .ofFloat "offset" 0,
       .ofPoint "position" 0 0,
       .ofChoice "extend" extendCases "repeat"]
  | .noise =>
      [.ofFloat "scale" 1,
       .ofInt "seed" 1,
       .ofInt "octaves" 7,
       .ofPoint "offset" 0 0,
       .ofBool "colored" false,
       .ofBool "random" false]

def Filter.properties : Filter → List Property
  | .blur =>
      [.ofFloat "radius" 0.5,
       .ofChoice "style" ["box", "gaussian", "angle", "zoom", "random"] "gaussian",
       .ofChoice "quality" ["low", "mid", "high"] "mid",
       .ofFloat "angle" 0,
       .ofPoint "position" 0 0]
  | .levels =>
      [.ofFloat "brightness" 1,
       .ofFloat "darkness" 0,
       .ofFloat "contrast" 0,
       .ofFloat "gamma" 1,
       .ofFloat "opacity" 1,
       .ofBool "inverted" false]
  | .transform =>
      [.ofPoint "position" 0 0,
       .ofFloat "rotation" 0,
       .ofFloat "scale" 1,
       .ofSize "size" 1 1]
  | .crop => [.ofRect "crop" 0 0 1 1]
  | .threshold => [.ofFloat "threshold" 0.5, .ofBool "smooth" true]
  | .edge => [.ofFloat "strength" 10, .ofFloat "distance" 1, .ofBool "colored" false]
  | .tint => [.ofColor "color" .white]
  | .flip =>
      [.ofChoice "flip" ["none", "x", "y", "xy"] "none",
       .ofChoice "flop" ["none", "left", "right"] "none"]
  | .clamp =>
      [.ofFloat "low" 0,
       .ofFloat "high" 1,
       .ofChoice "style" ["hold", "relative", "loop", "mirror"] "hold"]

/-- Every merger fits its second image to the first, so all have these two. -/
def Merger.fitting : List Property :=
  [.ofChoice "placement" placementCases "aspectFit", .ofChoice "extend" extendCases "zero"]

def Merger.properties : Merger → List Property
  | .blend =>
      .ofChoice "mode" blendModeCases "add" :: Merger.fitting ++
        [.ofPoint "position" 0 0,
         .ofFloat "rotation" 0,
         .ofFloat "scale" 1,
         .ofSize "size" 1 1]
  | .displace => .ofFloat "distance" 0.1 :: .ofFloat "origin" 0.5 :: Merger.fitting
  | .cross => .ofFloat "fraction" 0.5 :: Merger.fitting
  | .lookup => .ofChoice "axis" ["x", "y"] "x" :: .ofBool "holdEdge" true :: Merger.fitting

def Collage.properties : Collage → List Property
  | .blends => [.ofChoice "mode" blendModeCases "add"]
  | .stack =>
      [.ofChoice "axis" ["horizontal", "vertical"] "vertical",
       .ofChoice "alignment" ["leading", "center", "trailing"] "center",
       .ofFloat "spacing" 0,
       .ofFloat "padding" 0,
       .ofColor "backgroundColor" .black]

def Kind.properties : Kind → List Property
  | .generator source => source.properties
  | .filter effect => effect.properties
  | .merger combination => combination.properties
  | .collage arrangement => arrangement.properties

end ImageGraph
