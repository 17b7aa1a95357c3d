import ImageGraph.Value
import ImageGraph.Proofs.Parts
import ImageGraph.Proofs.Settings

/-!
Catalogs of stored images. The address of a stored image occurs in every image that is made from it,
and a store alone does not say that all of these occurrences are alike. A catalog does: it lists the
one image of each address. It only grows, so it also says that the kind and the inputs of a
stored image are there to stay.
-/

set_option autoImplicit false

namespace ImageGraph

def Resolution.Positive (resolution : Resolution) : Prop :=
  1 ≤ resolution.width ∧ 1 ≤ resolution.height

/-- The resolutions that a generator can get: those that are written or computed are positive, and
the configured ones are taken as they are. -/
def Defaults.Admits (defaults : Defaults) (resolution : Resolution) : Prop :=
  resolution.Positive ∨ resolution = defaults.generated ∨ resolution = defaults.constant

/-- Settings and resolution of an image are such as its kind demands. -/
structure Image.WellMade (defaults : Defaults) (image : Image) (settings : Settings) : Prop where
  admitted : ∀ resolution, image.resolution? = some resolution → defaults.Admits resolution
  fit : Settings.Fit image.kind.properties settings
  attained : Settings.Attained settings

abbrev Catalog := List Image

/-- Every stored part of the image is the one that the catalog lists, and every loose part is well
made. -/
inductive Image.Known (defaults : Defaults) (catalog : Catalog) : Image → Prop where
  | stored {image : Image} {address : Address} (listed : catalog[address]? = some image)
      (home : image.home = .stored address) : Known defaults catalog image
  | loose {image : Image} {settings : Settings} (home : image.home = .loose settings)
      (wellMade : image.WellMade defaults settings)
      (inputs : ∀ input ∈ image.inputs, Known defaults catalog input) :
      Known defaults catalog image

/-- The catalog lists the images of a store. Each is made from images that were stored before it. -/
structure Catalog.Describes (catalog : Catalog) (defaults : Defaults) (store : Store) : Prop where
  length : catalog.length = store.size
  home : ∀ (address : Address) (image : Image), catalog[address]? = some image →
    image.home = .stored address
  wellMade : ∀ (address : Address) (image : Image), catalog[address]? = some image →
    image.WellMade defaults (store.getD address [])
  inputs : ∀ (address : Address) (image : Image), catalog[address]? = some image →
    ∀ input ∈ image.inputs, ∃ below : Address, below < address ∧ catalog[below]? = some input

namespace Catalog

variable {defaults : Defaults} {catalog : Catalog} {store : Store}

theorem describes_empty (defaults : Defaults) : Describes [] defaults #[] where
  length := rfl
  home := by simp
  wellMade := by simp
  inputs := by simp

theorem Describes.address_lt {address : Address} {image : Image}
    (describes : catalog.Describes defaults store) (listed : catalog[address]? = some image) :
    address < store.size := by
  rw [← describes.length]
  exact (List.getElem?_eq_some_iff.1 listed).1

theorem listed_append {address : Address} {image : Image} (more : Catalog)
    (listed : catalog[address]? = some image) : (catalog ++ more)[address]? = some image := by
  rw [List.getElem?_append_left (List.getElem?_eq_some_iff.1 listed).1]
  exact listed

theorem Describes.parts_listed (describes : catalog.Describes defaults store) {address : Address}
    {image part : Image} (listed : catalog[address]? = some image) (within : part ∈ image.parts) :
    ∃ below : Address, below ≤ address ∧ catalog[below]? = some part := by
  -- Inputs have smaller addresses, so the induction is on the address and not on the image.
  induction address using Nat.strongRecOn generalizing image with
  | ind address induction =>
      rcases (Image.mem_parts_iff part image).1 within with rfl | ⟨input, isInput, deeper⟩
      · exact ⟨address, Nat.le_refl _, listed⟩
      · obtain ⟨below, less, inputListed⟩ := describes.inputs address image listed input isInput
        obtain ⟨lowest, atMost, partListed⟩ := induction below less inputListed deeper
        exact ⟨lowest, Nat.le_trans atMost (Nat.le_of_lt less), partListed⟩

/-- One more image is stored, made from images that are stored already. -/
theorem Describes.push (describes : catalog.Describes defaults store) {image : Image}
    {settings : Settings} (home : image.home = .stored store.size)
    (wellMade : image.WellMade defaults settings)
    (inputs : ∀ input ∈ image.inputs, ∃ below : Address, catalog[below]? = some input) :
    Describes (catalog ++ [image]) defaults (store.push settings) := by
  have cases : ∀ {address : Address} {other : Image}, (catalog ++ [image])[address]? = some other →
      catalog[address]? = some other ∨ address = store.size ∧ other = image := by
    intro address other listed
    rcases List.getElem?_eq_some_iff.1 listed with ⟨bound, _⟩
    rw [List.length_append, List.length_singleton, describes.length] at bound
    rcases Nat.lt_or_eq_of_le (Nat.le_of_lt_succ bound) with before | rfl
    · rw [List.getElem?_append_left (by rwa [describes.length])] at listed
      exact .inl listed
    · rw [← describes.length, List.getElem?_concat_length] at listed
      exact .inr ⟨rfl, (Option.some.inj listed).symm⟩
  constructor
  · simp [describes.length]
  · intro address other listed
    rcases cases listed with old | ⟨rfl, rfl⟩
    · exact describes.home address other old
    · exact home
  · intro address other listed
    rcases cases listed with old | ⟨rfl, rfl⟩
    · have bound := describes.address_lt old
      have kept : (store.push settings).getD address [] = store.getD address [] := by
        simp [Array.getD_eq_getD_getElem?, Array.getElem?_push, Nat.ne_of_lt bound]
      rw [kept]
      exact describes.wellMade address other old
    · have own : (store.push settings).getD store.size [] = settings := by simp
      rw [own]
      exact wellMade
  · intro address other listed input isInput
    rcases cases listed with old | ⟨rfl, rfl⟩
    · obtain ⟨below, less, inputListed⟩ := describes.inputs address other old input isInput
      exact ⟨below, less, listed_append _ inputListed⟩
    · obtain ⟨below, inputListed⟩ := inputs input isInput
      exact ⟨below, describes.address_lt inputListed, listed_append _ inputListed⟩

theorem Describes.set (describes : catalog.Describes defaults store) {address : Address}
    {image : Image} {settings : Settings} (listed : catalog[address]? = some image)
    (fit : Settings.Fit image.kind.properties settings) (attained : Settings.Attained settings) :
    catalog.Describes defaults (store.set! address settings) where
  length := by simp [describes.length]
  home := describes.home
  inputs := describes.inputs
  wellMade := by
    intro other present otherListed
    have old := describes.wellMade other present otherListed
    by_cases same : other = address
    · subst same
      obtain rfl := Option.some.inj (listed.symm.trans otherListed)
      have own : (store.set! other settings).getD other [] = settings := by
        simp [Array.getD_eq_getD_getElem?, describes.address_lt listed]
      rw [own]
      exact ⟨old.admitted, fit, attained⟩
    · have kept : (store.set! address settings).getD other [] = store.getD other [] := by
        simp [Array.getD_eq_getD_getElem?, Ne.symm same]
      rw [kept]
      exact old

end Catalog

namespace Image

theorem address_eq_some (image : Image) (address : Address) :
    image.address? = some address ↔ image.home = .stored address := by
  unfold address?
  cases image.home <;> simp

variable {defaults : Defaults} {catalog : Catalog} {store : Store} {image : Image}

theorem known_append (more : Catalog) (known : image.Known defaults catalog) :
    image.Known defaults (catalog ++ more) := by
  induction known with
  | stored listed home => exact .stored (Catalog.listed_append more listed) home
  | loose home wellMade _ induction => exact .loose home wellMade induction

theorem Known.parts (known : image.Known defaults catalog)
    (describes : catalog.Describes defaults store) {part : Image} (within : part ∈ image.parts) :
    part.Known defaults catalog := by
  induction known with
  | stored listed home =>
      obtain ⟨below, _, partListed⟩ := describes.parts_listed listed within
      exact .stored partListed (describes.home below part partListed)
  | @loose image settings home wellMade inputs induction =>
      rcases (mem_parts_iff part image).1 within with rfl | ⟨input, isInput, deeper⟩
      · exact .loose home wellMade inputs
      · exact induction input isInput deeper

theorem Known.listed (known : image.Known defaults catalog)
    (describes : catalog.Describes defaults store) {address : Address}
    (stored : image.address? = some address) : catalog[address]? = some image := by
  have home := (image.address_eq_some address).1 stored
  cases known with
  | @stored _ other isListed _ =>
      have same : other = address := by
        simpa [home] using (describes.home other image isListed).symm
      rwa [← same]
  | loose loose wellMade inputs =>
      rw [loose] at home
      cases home

end Image

end ImageGraph
