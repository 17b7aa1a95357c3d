import ImageGraph.Text

/-!
Pixel dimensions of images and the three ways to write them: by name, as `WxH`, and as one side
of a square.
-/

set_option autoImplicit false

namespace ImageGraph

/-- Pixel dimensions. The readers below keep each side between one and `greatestSide`. -/
structure Resolution where
  width : Nat
  height : Nat
  deriving DecidableEq, Repr

namespace Resolution

/-- Sides are counted in 32 bits. -/
def greatestSide : Nat := 0xFFFFFFFF

def square (side : Nat) : Resolution := ⟨side, side⟩

def text (resolution : Resolution) : String :=
  Nat.repr resolution.width ++ "x" ++ Nat.repr resolution.height

/-- The standard resolutions and their names. -/
def standard : List (String × Resolution) :=
  [("square", square 1024),
   ("hd", ⟨1280, 720⟩),
   ("720p", ⟨1280, 720⟩),
   ("fullhd", ⟨1920, 1080⟩),
   ("1080p", ⟨1920, 1080⟩),
   ("4k", ⟨3840, 2160⟩),
   ("uhd", ⟨3840, 2160⟩),
   ("8k", ⟨7680, 4320⟩)]

def named? (name : String) : Option Resolution := standard.lookup name

/-- The part of a written resolution that is at fault. A side stands for both dimensions of a
square. -/
inductive Part where
  | width
  | height
  | side
  deriving DecidableEq, Repr

def Part.name : Part → String
  | .width => "width"
  | .height => "height"
  | .side => "side"

/-- A part that is not a positive whole number within range, and how it was written. -/
structure Fault where
  part : Part
  text : String
  deriving DecidableEq, Repr

/-- A numeral has an optional plus sign and at least one digit. -/
def numeral? (chars : List Char) : Option Nat :=
  let digits := match chars with
    | '+' :: rest => rest
    | _ => chars
  if digits.isEmpty || !digits.all Char.isDigit then none
  else some (Number.readDigits digits)

def isSide (number : Nat) : Bool := 0 < number && number ≤ greatestSide

def dimension (part : Part) (text : String) : Except Fault Nat :=
  match (numeral? text.toList).filter isSide with
  | some number => .ok number
  | none => .error ⟨part, text⟩

/-- The resolution of two written halves. The width is examined first. -/
def ofHalves (width height : String) : Except Fault Resolution := do
  let columns ← dimension .width width
  let rows ← dimension .height height
  pure ⟨columns, rows⟩

def ofSide (side : Float) : Except Fault Resolution :=
  match (Number.natural? side).filter isSide with
  | some number => .ok (square number)
  | none => .error ⟨.side, Number.text side⟩

/-- The resolution that a setting names: a standard name, `WxH` or one side. -/
def ofText (text : String) : Except Fault Resolution :=
  let trimmed := Text.trim text
  match named? trimmed with
  | some resolution => .ok resolution
  | none =>
      match Text.cut 'x' trimmed with
      | some (width, height) => ofHalves width height
      | none => (dimension .side trimmed).map square

end Resolution

end ImageGraph
