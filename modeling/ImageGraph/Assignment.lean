import ImageGraph.Evaluation

/-!
Assignments to properties, written `name.property = value`. The kind of the property decides how the
value is read.
-/

set_option autoImplicit false

namespace ImageGraph

/-- The two sides of the dot in a path. A path without a dot names no property. -/
def splitPath (path : String) : Except Error (Option (String × String)) :=
  match Text.cut '.' path with
  | none => .ok none
  | some (before, behind) =>
      let name := Text.trim before
      let property := Text.trim behind
      if property.toList.contains '.' then .error (.nestedPath path)
      else if name.isEmpty then .error .emptyName
      else .ok (some (name, property))

/-- What the right side of an assignment to a property asks for: a new value, or the list of cases
that the property could have. -/
inductive Request where
  | store (value : Property.Value)
  | cases (entries : List String)
  deriving DecidableEq

/-- A flag is one of six words or a number, which counts as set when it is positive. -/
def readFlag (text : String) : Except Error Bool :=
  if text = "true" ∨ text = "True" ∨ text = "YES" then .ok true
  else if text = "false" ∨ text = "False" ∨ text = "NO" then .ok false
  else (evaluateNumber text).map fun number => decide (0 < number)

/-- The right side of an assignment to a choice. A dot alone asks for the cases. -/
def readChoice (property : String) (cases : List String) (text : String) : Except Error Request :=
  match text.toList with
  | ['.'] => .ok (.cases (cases.map Text.dotted))
  | '.' :: chosen =>
      let chosen := String.ofList chosen
      if cases.contains chosen then .ok (.store (.choice chosen))
      else .error (.caseNotFound chosen cases)
  | _ => .error (.caseWithoutDot property (cases.headD ""))

/-- The value that several numbers make, if their count is that of the shape. -/
def Shape.value? : Shape → List Float → Option Property.Value
  | point, [x, y] => some (.point x y)
  | size, [width, height] => some (.size width height)
  | rect, [x, y, width, height] => some (.rect x y width height)
  | color, [red, green, blue, alpha] => some (.color ⟨red, green, blue, alpha⟩)
  | _, _ => none

def readShape (property : String) (shape : Shape) (text : String) : Except Error Request := do
  let numbers ← evaluateArray text
  match shape.value? numbers with
  | some value => pure (.store value)
  | none => .error (.componentCount property shape numbers.length)

def readRequest (property : Property) (text : String) : Except Error Request :=
  let trimmed := Text.trim text
  match property.kind with
  | .float => (evaluateNumber trimmed).map fun number => .store (.float number)
  | .int => (evaluateNumber trimmed).map fun number => .store (.int (Number.truncate number))
  | .bool => (readFlag trimmed).map fun flag => .store (.bool flag)
  | .point => readShape property.name .point trimmed
  | .size => readShape property.name .size trimmed
  | .rect => readShape property.name .rect trimmed
  | .color => readShape property.name .color trimmed
  | .choice cases => readChoice property.name cases trimmed

end ImageGraph
