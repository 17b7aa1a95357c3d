import ImageGraph.Image

/-!
The names of images. Each name stands for one image, and the names are kept in order, so that two
registries with the same bindings are equal.
-/

set_option autoImplicit false

namespace ImageGraph

/-- Names and the images that they stand for, sorted by name. -/
abbrev Registry := List (String × Image)

namespace Registry

def get? (registry : Registry) (name : String) : Option Image := registry.lookup name

def contains (registry : Registry) (name : String) : Bool := (registry.get? name).isSome

def find (registry : Registry) (name : String) : Except Error Image :=
  match registry.get? name with
  | some image => .ok image
  | none => .error (.imageNotFound name)

/-- Give a name to an image. An image that had the name before loses it. -/
def insert : Registry → String → Image → Registry
  | [], name, image => [(name, image)]
  | (other, kept) :: rest, name, image =>
      if name < other then (name, image) :: (other, kept) :: rest
      else if name = other then (name, image) :: rest
      else (other, kept) :: insert rest name image

theorem get_cons (name other : String) (image : Image) (rest : Registry) :
    get? ((name, image) :: rest) other = if other = name then some image else get? rest other := by
  simp only [get?, List.lookup_cons]
  by_cases same : other = name
  · simp [same]
  · simp [same, beq_eq_false_iff_ne.2 same]

theorem get_insert (registry : Registry) (name other : String) (image : Image) :
    (registry.insert name image).get? other =
      if other = name then some image else registry.get? other := by
  induction registry with
  | nil => exact get_cons name other image []
  | cons entry rest induction =>
      obtain ⟨present, kept⟩ := entry
      simp only [insert]
      split
      · rw [get_cons]
      · split
        · rename_i equal
          subst equal
          rw [get_cons, get_cons]
          split <;> simp_all
        · rename_i different
          rw [get_cons, get_cons, induction]
          split
          · rename_i isPresent
            rw [if_neg (fun same => different (same.symm.trans isPresent))]
          · rfl

def names (registry : Registry) : List String := registry.map Prod.fst

end Registry

end ImageGraph
