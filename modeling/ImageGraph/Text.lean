import ImageGraph.Number.Decimal

/-!
Text of command lines: blanks at the ends, the cut at the first separator, dotted and bracketed
lists.
-/

set_option autoImplicit false

namespace ImageGraph.Text

/-- The blanks of the Unicode property White_Space. -/
def isBlank (char : Char) : Bool :=
  let code := char.toNat
  (9 ≤ code && code ≤ 13) || code == 0x20 || code == 0x85 || code == 0xA0 || code == 0x1680 ||
    (0x2000 ≤ code && code ≤ 0x200A) || code == 0x2028 || code == 0x2029 || code == 0x202F ||
    code == 0x205F || code == 0x3000

def trimList (chars : List Char) : List Char :=
  ((chars.dropWhile isBlank).reverse.dropWhile isBlank).reverse

def trim (text : String) : String := String.ofList (trimList text.toList)

def cutList (separator : Char) : List Char → Option (List Char × List Char)
  | [] => none
  | char :: rest =>
      if char = separator then some ([], rest)
      else (cutList separator rest).map fun (before, behind) => (char :: before, behind)

/-- The parts of a text before and behind the first separator, if there is one. -/
def cut (separator : Char) (text : String) : Option (String × String) :=
  (cutList separator text.toList).map fun (before, behind) =>
    (String.ofList before, String.ofList behind)

def dropFinal (final : Char) (text : String) : Option String :=
  match text.toList.reverse with
  | char :: before => if char = final then some (String.ofList before.reverse) else none
  | [] => none

/-- Names of properties and cases are listed with a dot in front. -/
def dotted (name : String) : String := "." ++ name

def bracketed (numbers : List Float) : String :=
  "[" ++ String.intercalate ", " (numbers.map Number.text) ++ "]"

end ImageGraph.Text
