import ImageGraph.Settings

/-!
Images and the store of their settings. An image is the tree of everything that it is made from;
its kind, resolution and inputs never change. Its settings do, so a named image and all images that
it is made from keep them in the store, under an address that is the image's identity. Wherever
the same address occurs, it is the same image. An image that has just been described by an
expression is not shared with anything yet and carries its settings with it.
-/

set_option autoImplicit false

namespace ImageGraph

abbrev Address := Nat

inductive Home where
  | stored (address : Address)
  | loose (settings : Settings)
  deriving DecidableEq

/-- An image and what it is made from. -/
inductive Image where
  | generator (home : Home) (kind : Generator) (resolution : Resolution)
  | filter (home : Home) (kind : Filter) (input : Image)
  | merger (home : Home) (kind : Merger) (first second : Image)
  | collage (home : Home) (kind : Collage) (first : Image) (others : List Image)

abbrev Store := Array Settings

namespace Image

mutual

def same : Image → Image → Bool
  | generator home kind resolution, generator home' kind' resolution' =>
      decide (home = home' ∧ kind = kind' ∧ resolution = resolution')
  | filter home kind input, filter home' kind' input' =>
      decide (home = home' ∧ kind = kind') && same input input'
  | merger home kind first second, merger home' kind' first' second' =>
      decide (home = home' ∧ kind = kind') && same first first' && same second second'
  | collage home kind first others, collage home' kind' first' others' =>
      decide (home = home' ∧ kind = kind') && same first first' && sameAll others others'
  | _, _ => false

def sameAll : List Image → List Image → Bool
  | [], [] => true
  | image :: images, image' :: images' => same image image' && sameAll images images'
  | _, _ => false

end

mutual

theorem same_iff (image other : Image) : same image other = true ↔ image = other := by
  cases image <;> cases other <;> simp [same, same_iff, same_all_iff, and_assoc]

theorem same_all_iff (images others : List Image) :
    sameAll images others = true ↔ images = others := by
  cases images <;> cases others <;> simp [sameAll, same_iff, same_all_iff]

end

instance : DecidableEq Image := fun image other => decidable_of_iff _ (same_iff image other)

def kind : Image → Kind
  | generator _ kind _ => .generator kind
  | filter _ kind _ => .filter kind
  | merger _ kind _ _ => .merger kind
  | collage _ kind _ _ => .collage kind

def home : Image → Home
  | generator home _ _ | filter home _ _ | merger home _ _ _ | collage home _ _ _ => home

def moveTo : Image → Home → Image
  | generator _ kind resolution, home => generator home kind resolution
  | filter _ kind input, home => filter home kind input
  | merger _ kind first second, home => merger home kind first second
  | collage _ kind first others, home => collage home kind first others

@[simp] theorem kind_move_to (image : Image) (home : Home) :
    (image.moveTo home).kind = image.kind := by
  cases image <;> rfl

@[simp] theorem home_move_to (image : Image) (home : Home) : (image.moveTo home).home = home := by
  cases image <;> rfl

def resolution? : Image → Option Resolution
  | generator _ _ resolution => some resolution
  | _ => none

def inputs : Image → List Image
  | generator _ _ _ => []
  | filter _ _ input => [input]
  | merger _ _ first second => [first, second]
  | collage _ _ first others => first :: others

def address? (image : Image) : Option Address :=
  match image.home with
  | .stored address => some address
  | .loose _ => none

@[simp] theorem inputs_move_to (image : Image) (home : Home) :
    (image.moveTo home).inputs = image.inputs := by
  cases image <;> rfl

def settings (store : Store) (image : Image) : Settings :=
  match image.home with
  | .stored address => store.getD address []
  | .loose settings => settings

def value? (store : Store) (image : Image) (property : String) : Option Property.Value :=
  Settings.get? image.kind.properties (image.settings store) property

def propertyNames (image : Image) : List String := image.kind.properties.map Property.name

def newHome (kind : Kind) : Home := .loose (Settings.initial kind.properties)

def ofGenerator (kind : Generator) (resolution : Resolution) : Image :=
  generator (newHome (.generator kind)) kind resolution

def ofFilter (kind : Filter) (input : Image) : Image := filter (newHome (.filter kind)) kind input

def ofMerger (kind : Merger) (first second : Image) : Image :=
  merger (newHome (.merger kind)) kind first second

def ofCollage (kind : Collage) (first : Image) (others : List Image) : Image :=
  collage (newHome (.collage kind)) kind first others

/-- A new image of a kind, if the inputs are those that the kind takes. -/
def ofKind? (kind : Kind) (resolution : Option Resolution) (inputs : List Image) : Option Image :=
  match kind, resolution, inputs with
  | .generator kind, some resolution, [] => some (ofGenerator kind resolution)
  | .filter kind, none, [input] => some (ofFilter kind input)
  | .merger kind, none, [first, second] => some (ofMerger kind first second)
  | .collage kind, none, first :: others => some (ofCollage kind first others)
  | _, _, _ => none

def withValue (image : Image) (property : String) (value : Property.Value) : Image :=
  match image.home with
  | .stored _ => image
  | .loose settings =>
      image.moveTo (.loose (Settings.put image.kind.properties settings property value))

/-- A new image with one value of its settings replaced by another of the right kind. -/
def trySetting (image : Image) (property : String) (value : Property.Value) :
    Except Error Image :=
  match image.home with
  | .stored _ => .ok image
  | .loose settings =>
      (Settings.set image.kind.properties settings property value).map fun changed =>
        image.moveTo (.loose changed)

end Image

def Home.settle (home : Home) (store : Store) : Home × Store :=
  match home with
  | .stored address => (.stored address, store)
  | .loose settings => (.stored store.size, store.push settings)

namespace Image

mutual

/-- Move the settings of an image, and those of all that it is made from, into the store. Stored
images are made from stored images only, so nothing is left to do below one. -/
def settle : Image → Store → Image × Store
  | generator home kind resolution, store =>
      let (home, store) := home.settle store
      (generator home kind resolution, store)
  | filter (.stored address) kind input, store => (filter (.stored address) kind input, store)
  | filter (.loose settings) kind input, store =>
      let (input, store) := settle input store
      let (home, store) := (Home.loose settings).settle store
      (filter home kind input, store)
  | merger (.stored address) kind first second, store =>
      (merger (.stored address) kind first second, store)
  | merger (.loose settings) kind first second, store =>
      let (first, store) := settle first store
      let (second, store) := settle second store
      let (home, store) := (Home.loose settings).settle store
      (merger home kind first second, store)
  | collage (.stored address) kind first others, store =>
      (collage (.stored address) kind first others, store)
  | collage (.loose settings) kind first others, store =>
      let (first, store) := settle first store
      let (others, store) := settleAll others store
      let (home, store) := (Home.loose settings).settle store
      (collage home kind first others, store)

def settleAll : List Image → Store → List Image × Store
  | [], store => ([], store)
  | image :: images, store =>
      let (image, store) := settle image store
      let (images, store) := settleAll images store
      (image :: images, store)

end

end Image

theorem Home.store_settle (home : Home) (store : Store) :
    ∃ added, (home.settle store).2 = store ++ added := by
  cases home with
  | stored address => exact ⟨#[], by simp [settle]⟩
  | loose settings => exact ⟨#[settings], by simp [settle]⟩

namespace Image

mutual

theorem store_settle (image : Image) (store : Store) :
    ∃ added, (image.settle store).2 = store ++ added := by
  match image with
  | generator home kind resolution => exact home.store_settle store
  | filter (.stored address) kind input => exact ⟨#[], by simp [settle]⟩
  | filter (.loose settings) kind input =>
      obtain ⟨below, inputAdds⟩ := store_settle input store
      obtain ⟨own, homeAdds⟩ := (Home.loose settings).store_settle (store ++ below)
      exact ⟨below ++ own, by simp [settle, inputAdds, homeAdds, Array.append_assoc]⟩
  | merger (.stored address) kind first second => exact ⟨#[], by simp [settle]⟩
  | merger (.loose settings) kind first second =>
      obtain ⟨left, firstAdds⟩ := store_settle first store
      obtain ⟨right, secondAdds⟩ := store_settle second (store ++ left)
      obtain ⟨own, homeAdds⟩ := (Home.loose settings).store_settle (store ++ left ++ right)
      exact ⟨left ++ right ++ own, by
        simp only [settle, firstAdds, secondAdds, homeAdds]
        simp only [Array.append_assoc]⟩
  | collage (.stored address) kind first others => exact ⟨#[], by simp [settle]⟩
  | collage (.loose settings) kind first others =>
      obtain ⟨left, firstAdds⟩ := store_settle first store
      obtain ⟨right, othersAdd⟩ := store_settle_all others (store ++ left)
      obtain ⟨own, homeAdds⟩ := (Home.loose settings).store_settle (store ++ left ++ right)
      exact ⟨left ++ right ++ own, by
        simp only [settle, firstAdds, othersAdd, homeAdds]
        simp only [Array.append_assoc]⟩

theorem store_settle_all (images : List Image) (store : Store) :
    ∃ added, (settleAll images store).2 = store ++ added := by
  match images with
  | [] => exact ⟨#[], by simp [settleAll]⟩
  | image :: images =>
      obtain ⟨left, imageAdds⟩ := store_settle image store
      obtain ⟨right, imagesAdd⟩ := store_settle_all images (store ++ left)
      exact ⟨left ++ right, by simp [settleAll, imageAdds, imagesAdd, Array.append_assoc]⟩

end

end Image

end ImageGraph
