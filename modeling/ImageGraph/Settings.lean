import ImageGraph.Error
import ImageGraph.Kind.Properties

/-!
Settings of an image: one value for each property of its kind, in the order of the properties.
-/

set_option autoImplicit false

namespace ImageGraph

abbrev Settings := List Property.Value

namespace Settings

def initial (properties : List Property) : Settings := properties.map Property.initial

def get? : List Property → Settings → String → Option Property.Value
  | property :: properties, value :: values, name =>
      if property.name = name then some value else get? properties values name
  | _, _, _ => none

/-- The settings with one value replaced. Nothing changes when the name is no property. -/
def put : List Property → Settings → String → Property.Value → Settings
  | property :: properties, old :: values, name, value =>
      if property.name = name then value :: values else old :: put properties values name value
  | _, values, _, _ => values

theorem get_put_other (properties : List Property) (settings : Settings) {name other : String}
    (value : Property.Value) (different : other ≠ name) :
    get? properties (put properties settings name value) other =
      get? properties settings other := by
  induction properties generalizing settings with
  | nil => simp [get?]
  | cons property properties induction =>
      cases settings with
      | nil => simp [put, get?]
      | cons old values =>
          simp only [put]
          split
          · rename_i same
            have apart : property.name ≠ other := fun equal => different (equal.symm.trans same)
            simp [get?, apart]
          · simp only [get?]
            rw [induction]

theorem get_put_same (properties : List Property) (settings : Settings) (name : String)
    (value : Property.Value) :
    get? properties (put properties settings name value) name =
      (get? properties settings name).map fun _ => value := by
  induction properties generalizing settings with
  | nil => simp [get?]
  | cons property properties induction =>
      cases settings with
      | nil => simp [put, get?]
      | cons old values =>
          by_cases same : property.name = name
          · simp [put, get?, same]
          · simp [put, get?, same, induction]

def property? (properties : List Property) (name : String) : Option Property :=
  properties.find? fun property => property.name == name

/-- Replace one value by another of the right kind. -/
def set (properties : List Property) (settings : Settings) (name : String)
    (value : Property.Value) : Except Error Settings :=
  match property? properties name with
  | none => .error (.propertyNotFound "" name (properties.map Property.name))
  | some property =>
      if value.fits property.kind then .ok (put properties settings name value)
      else .error (.badArgument (.misfit value property.kind name))

end Settings

end ImageGraph
