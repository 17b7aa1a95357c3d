import ImageGraph.Number.Scaled

/-!
Decimal text of double precision numbers. Reading takes the nearest double. Writing takes the
fewest digits that read back to the same double, in positional notation.
-/

set_option autoImplicit false

namespace ImageGraph.Number

/-- The number that a row of decimal digits writes. -/
def readDigits (digits : List Char) : Nat := Nat.ofDigitChars 10 digits 0

/-- A number with a fixed count of decimal places. -/
structure Decimal where
  /-- All digits, the point left out. -/
  digits : Nat
  /-- How many of the digits stand behind the point. -/
  places : Nat
  deriving DecidableEq, Repr

namespace Decimal

def ofText (whole fraction : List Char) : Decimal where
  digits := readDigits (whole ++ fraction)
  places := fraction.length

def nearest (decimal : Decimal) : Nat := nearestPattern decimal.digits (Nat.pow 10 decimal.places)

def toFloat (decimal : Decimal) : Float := ofPattern false decimal.nearest

/-- The decimal that equals a finite pattern. A unit of 2^-n has n decimal places. -/
def ofPattern (bits : Nat) : Decimal :=
  let places := 1074 - scaleOf bits
  if places = 0 then { digits := significandOf bits <<< (scaleOf bits - 1074), places := 0 }
  else { digits := significandOf bits * Nat.pow 5 places, places }

/-- Search for the coarsest decimal that reads back to a pattern, from `exact`, which equals it.
With `cut + 1` digits dropped there are two neighbours, one below and one above. The nearer of
those that read back is taken, the upper one if both are equally near. With no digit dropped the
exact decimal itself remains. -/
def shorten (bits : Nat) (exact : Decimal) : Nat → Decimal
  | 0 => exact
  | cut + 1 =>
      let step := Nat.pow 10 (cut + 1)
      let below : Decimal := { exact with digits := exact.digits / step * step }
      let above : Decimal := { exact with digits := below.digits + step }
      if below.nearest = bits then
        if above.nearest = bits ∧ above.digits - exact.digits ≤ exact.digits - below.digits then
          above
        else below
      else if above.nearest = bits then above
      else shorten bits exact cut

/-- A decimal with the fewest digits that reads back to the pattern. -/
def shortest (bits : Nat) : Decimal :=
  let exact := ofPattern bits
  shorten bits exact ((Nat.repr exact.digits).length - 1)

def fractionDigits (decimal : Decimal) : List Char :=
  let digits := (Nat.repr (decimal.digits % Nat.pow 10 decimal.places)).toList
  let padded := List.replicate (decimal.places - digits.length) '0' ++ digits
  (padded.reverse.dropWhile (· == '0')).reverse

/-- Positional notation, without a point when nothing stands behind it. -/
def text (decimal : Decimal) : String :=
  let whole := Nat.repr (decimal.digits / Nat.pow 10 decimal.places)
  match decimal.fractionDigits with
  | [] => whole
  | fraction => whole ++ "." ++ String.ofList fraction

end Decimal

/-- The text of a double: the fewest digits that read back, never an exponent, and a sign also
for a negative zero. -/
def text (x : Float) : String :=
  if !isNumber x then "NaN"
  else
    let magnitude := if isFinite x then (Decimal.shortest (pattern x)).text else "inf"
    if isNegative x then "-" ++ magnitude else magnitude

end ImageGraph.Number
