/-!
Double precision numbers as scaled whole numbers. Every finite double is a whole number of
units of 2^-1074, so reading, rounding to a whole number and truncation are exact arithmetic
on natural numbers. A pattern below means the bits of a double without its sign.
-/

set_option autoImplicit false

namespace ImageGraph.Number

/-- The least positive double is 2^-1074, and magnitudes are counted in it. -/
def unitsPerOne : Nat := 1 <<< 1074

/-- Patterns grow by this much when the spacing of doubles doubles. -/
def patternsPerScale : Nat := 0x10000000000000

def signPlace : Nat := 0x8000000000000000

/-- The pattern of infinity, just above that of the largest finite double. -/
def infinityPattern : Nat := 0x7FF0000000000000

/-- The bits of a double without its sign. -/
def pattern (x : Float) : Nat := x.toBits.toNat % signPlace

/-- Whether the sign bit is set, so also for a negative zero. -/
def isNegative (x : Float) : Bool := decide (signPlace ≤ x.toBits.toNat)

def isNumber (x : Float) : Bool := decide (pattern x ≤ infinityPattern)

def isFinite (x : Float) : Bool := decide (pattern x < infinityPattern)

def ofPattern (negative : Bool) (bits : Nat) : Float :=
  Float.ofBits (bits + if negative then signPlace else 0).toUInt64

/-- The power of two by which the units of a pattern are spaced. The two lowest ranges of
patterns, subnormal and least normal, share the spacing one. -/
def scaleOf (bits : Nat) : Nat := bits / patternsPerScale - 1

/-- The whole number that a pattern multiplies by its spacing. -/
def significandOf (bits : Nat) : Nat := bits - scaleOf bits * patternsPerScale

def unitsOf (bits : Nat) : Nat := significandOf bits <<< scaleOf bits

/-- The magnitude of a finite double, in units. For an infinite one it exceeds that of every
finite double. -/
def units (x : Float) : Nat := unitsOf (pattern x)

/-- The whole number nearest to a ratio; a half goes to the even neighbour. -/
def roundHalfEven (numerator denominator : Nat) : Nat :=
  let quotient := numerator / denominator
  let remainder := numerator % denominator
  if 2 * remainder < denominator then quotient
  else if denominator < 2 * remainder then quotient + 1
  else quotient + quotient % 2

/-- The pattern of the double nearest to a ratio; a half goes to the even pattern, and what lies
beyond the largest finite double is infinite. Rounding up past the last pattern of a scale gives
the first pattern of the next one, so no case of its own is needed for it. -/
def nearestPattern (numerator denominator : Nat) : Nat :=
  let scaled := numerator * unitsPerOne
  let scale := (scaled / denominator).log2 - 52
  min (scale * patternsPerScale + roundHalfEven scaled (denominator <<< scale)) infinityPattern

def ofWhole (negative : Bool) (whole : Nat) : Float :=
  ofPattern negative (nearestPattern whole 1)

def wholePart (x : Float) : Nat := units x / unitsPerOne

/-- The rest of the magnitude beyond its whole part, in units. -/
def restUnits (x : Float) : Nat := units x % unitsPerOne

def isBroken (x : Float) : Bool := restUnits x != 0

/-- The greatest whole number that is not above the given one. A zero keeps its sign. -/
def floor (x : Float) : Float :=
  if isFinite x then
    ofWhole (isNegative x) (if isNegative x && isBroken x then wholePart x + 1 else wholePart x)
  else x

/-- The least whole number that is not below the given one. A result of zero keeps the sign. -/
def ceil (x : Float) : Float :=
  if isFinite x then
    ofWhole (isNegative x) (if !isNegative x && isBroken x then wholePart x + 1 else wholePart x)
  else x

/-- The nearest whole number; a half goes away from zero. A result of zero keeps the sign. -/
def round (x : Float) : Float :=
  if isFinite x then
    ofWhole (isNegative x) ((2 * units x + unitsPerOne) / (2 * unitsPerOne))
  else x

def nan : Float := Float.ofBits 0x7FF8000000000000

/-- What remains of a double beyond its whole part, with its sign. It is exact. An infinite double
has no such rest. -/
def fraction (x : Float) : Float :=
  if isFinite x then ofPattern (isNegative x) (nearestPattern (restUnits x) unitsPerOne) else nan

/-- The position of a number on the circle of circumference one. The sum can round to one itself
when the number is a tiny negative one. -/
def wrapToOne (x : Float) : Float :=
  let rest := fraction x
  if rest < 0 then rest + 1 else rest

def leastInt : Int := -0x8000000000000000

def greatestInt : Int := 0x7FFFFFFFFFFFFFFF

/-- The whole number toward zero, held within the signed 64-bit range. What is not a number
counts as zero. -/
def truncate (x : Float) : Int :=
  if !isNumber x then 0
  else if isNegative x then max leastInt (-(wholePart x : Int))
  else min greatestInt (wholePart x : Int)

def natural? (x : Float) : Option Nat :=
  if isFinite x && !isBroken x && (!isNegative x || wholePart x == 0) then some (wholePart x)
  else none

end ImageGraph.Number
