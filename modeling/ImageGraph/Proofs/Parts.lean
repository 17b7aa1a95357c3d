import ImageGraph.Image
import Mathlib.Data.List.Basic

/-!
The parts of an image, and the shape that all functions on images share: something is done with the
inputs, and the image is put together again. One induction on inputs replaces the case split over
the four kinds of images.
-/

set_option autoImplicit false

namespace ImageGraph.Image

mutual

/-- The image and all that it is made from. -/
def parts : Image → List Image
  | generator home kind resolution => [generator home kind resolution]
  | filter home kind input => filter home kind input :: parts input
  | merger home kind first second =>
      merger home kind first second :: (parts first ++ parts second)
  | collage home kind first others =>
      collage home kind first others :: (parts first ++ partsAll others)

def partsAll : List Image → List Image
  | [] => []
  | image :: images => parts image ++ partsAll images

end

mutual

/-- The same image with the homes of all its parts changed. -/
def mapHomes (change : Home → Home) : Image → Image
  | generator home kind resolution => generator (change home) kind resolution
  | filter home kind input => filter (change home) kind (mapHomes change input)
  | merger home kind first second =>
      merger (change home) kind (mapHomes change first) (mapHomes change second)
  | collage home kind first others =>
      collage (change home) kind (mapHomes change first) (mapAllHomes change others)

def mapAllHomes (change : Home → Home) : List Image → List Image
  | [] => []
  | image :: images => mapHomes change image :: mapAllHomes change images

end

/-- The same image made from other inputs. There must be as many of them as before. -/
def withInputs : Image → List Image → Image
  | filter home kind _, [input] => filter home kind input
  | merger home kind _ _, [first, second] => merger home kind first second
  | collage home kind _ _, first :: others => collage home kind first others
  | image, _ => image

theorem parts_all_eq (images : List Image) : partsAll images = images.flatMap parts := by
  induction images with
  | nil => rfl
  | cons image images induction => rw [partsAll, induction, List.flatMap_cons]

theorem map_all_homes_eq (change : Home → Home) (images : List Image) :
    mapAllHomes change images = images.map (mapHomes change) := by
  induction images with
  | nil => rfl
  | cons image images induction => rw [mapAllHomes, induction, List.map_cons]

theorem parts_eq (image : Image) : image.parts = image :: image.inputs.flatMap parts := by
  cases image <;> simp [parts, inputs, parts_all_eq]

theorem self_mem_parts (image : Image) : image ∈ image.parts := by
  rw [parts_eq]
  exact List.mem_cons_self

theorem mem_parts_iff (part image : Image) :
    part ∈ image.parts ↔ part = image ∨ ∃ input ∈ image.inputs, part ∈ input.parts := by
  rw [parts_eq, List.mem_cons, List.mem_flatMap]

theorem map_homes_eq (change : Home → Home) (image : Image) :
    image.mapHomes change =
      (image.withInputs (image.inputs.map (mapHomes change))).moveTo (change image.home) := by
  cases image <;> simp [mapHomes, inputs, withInputs, moveTo, home, map_all_homes_eq]

@[simp] theorem kind_with_inputs (image : Image) (inputs : List Image) :
    (image.withInputs inputs).kind = image.kind := by
  unfold withInputs
  split <;> rfl

@[simp] theorem home_with_inputs (image : Image) (inputs : List Image) :
    (image.withInputs inputs).home = image.home := by
  unfold withInputs
  split <;> rfl

@[simp] theorem resolution_with_inputs (image : Image) (inputs : List Image) :
    (image.withInputs inputs).resolution? = image.resolution? := by
  unfold withInputs
  split <;> rfl

@[simp] theorem resolution_move_to (image : Image) (home : Home) :
    (image.moveTo home).resolution? = image.resolution? := by
  cases image <;> rfl

theorem inputs_with_inputs (image : Image) (inputs : List Image)
    (count : inputs.length = image.inputs.length) : (image.withInputs inputs).inputs = inputs := by
  cases image with
  | generator home kind resolution =>
      exact (List.length_eq_zero_iff.1 count).symm
  | filter home kind input =>
      obtain ⟨only, rfl⟩ := List.length_eq_one_iff.1 count
      rfl
  | merger home kind first second =>
      obtain ⟨left, right, rfl⟩ := List.length_eq_two.1 count
      rfl
  | collage home kind first others =>
      obtain ⟨head, tail, rfl⟩ := List.exists_cons_of_length_eq_add_one count
      rfl

@[simp] theorem with_inputs_inputs (image : Image) : image.withInputs image.inputs = image := by
  cases image <;> rfl

@[simp] theorem move_to_home (image : Image) : image.moveTo image.home = image := by
  cases image <;> rfl

@[simp] theorem move_to_move_to (image : Image) (first second : Home) :
    (image.moveTo first).moveTo second = image.moveTo second := by
  cases image <;> rfl

@[simp] theorem with_inputs_restore (image : Image) (between : List Image) :
    (image.withInputs between).withInputs image.inputs = image := by
  cases image <;> rcases between with _ | ⟨_, _ | ⟨_, _ | ⟨_, _⟩⟩⟩ <;> rfl

@[simp] theorem with_inputs_move_to (image : Image) (home : Home) (inputs : List Image) :
    (image.moveTo home).withInputs inputs = (image.withInputs inputs).moveTo home := by
  cases image <;> unfold withInputs <;> split <;> simp_all [moveTo]

mutual

/-- What holds of an image whenever it holds of its inputs holds of all images. -/
theorem of_inputs {property : Image → Prop}
    (step : ∀ image, (∀ input ∈ image.inputs, property input) → property image)
    (image : Image) : property image := by
  match image with
  | generator home kind resolution => exact step _ (by simp [inputs])
  | filter home kind input =>
      have below := of_inputs step input
      exact step _ (by simpa [inputs] using below)
  | merger home kind first second =>
      have left := of_inputs step first
      have right := of_inputs step second
      exact step _ (by simpa [inputs] using ⟨left, right⟩)
  | collage home kind first others =>
      have left := of_inputs step first
      have right := all_of_inputs step others
      exact step _ (by simpa [inputs] using ⟨left, right⟩)

theorem all_of_inputs {property : Image → Prop}
    (step : ∀ image, (∀ input ∈ image.inputs, property input) → property image)
    (images : List Image) : ∀ image ∈ images, property image := by
  match images with
  | [] => simp
  | image :: images =>
      have head := of_inputs step image
      have tail := all_of_inputs step images
      simpa using ⟨head, tail⟩

end

theorem parts_trans {part middle image : Image} (upper : middle ∈ image.parts)
    (lower : part ∈ middle.parts) : part ∈ image.parts := by
  induction image using of_inputs with
  | step image induction =>
      rcases (mem_parts_iff middle image).1 upper with rfl | ⟨input, isInput, within⟩
      · exact lower
      · exact (mem_parts_iff part image).2 (.inr ⟨input, isInput, induction input isInput within⟩)

theorem input_mem_parts {input image : Image} (isInput : input ∈ image.inputs) :
    input ∈ image.parts :=
  (mem_parts_iff input image).2 (.inr ⟨input, isInput, input.self_mem_parts⟩)

theorem map_homes_congr {first second : Home → Home} (image : Image)
    (agree : ∀ part ∈ image.parts, first part.home = second part.home) :
    image.mapHomes first = image.mapHomes second := by
  induction image using of_inputs with
  | step image induction =>
      have inputsAgree : image.inputs.map (mapHomes first) = image.inputs.map (mapHomes second) := by
        apply List.map_congr_left
        intro input isInput
        apply induction input isInput
        intro part within
        exact agree part ((mem_parts_iff part image).2 (.inr ⟨input, isInput, within⟩))
      rw [map_homes_eq, map_homes_eq, inputsAgree, agree image image.self_mem_parts]

theorem map_homes_id {change : Home → Home} (image : Image)
    (fixed : ∀ part ∈ image.parts, change part.home = part.home) :
    image.mapHomes change = image := by
  induction image using of_inputs with
  | step image induction =>
      have inputsFixed : image.inputs.map (mapHomes change) = image.inputs := by
        refine (List.map_congr_left fun input isInput => ?_).trans (List.map_id _)
        apply induction input isInput
        intro part within
        exact fixed part ((mem_parts_iff part image).2 (.inr ⟨input, isInput, within⟩))
      rw [map_homes_eq, inputsFixed, with_inputs_inputs, fixed image image.self_mem_parts,
        move_to_home]

theorem settle_stored (image : Image) (store : Store) {address : Address}
    (stored : image.home = .stored address) : image.settle store = (image, store) := by
  cases image <;> simp only [home] at stored <;> subst stored <;> rfl

theorem settle_loose (image : Image) (store : Store) {settings : Settings}
    (loose : image.home = .loose settings) :
    image.settle store =
      ((image.withInputs (settleAll image.inputs store).1).moveTo
          (.stored (settleAll image.inputs store).2.size),
        (settleAll image.inputs store).2.push settings) := by
  cases image <;> simp only [home] at loose <;> subst loose <;>
    simp [settle, settleAll, inputs, withInputs, moveTo, Home.settle]

@[simp] theorem kind_settle (image : Image) (store : Store) :
    (image.settle store).1.kind = image.kind := by
  cases home : image.home with
  | stored address => rw [settle_stored image store home]
  | loose settings => rw [settle_loose image store home, kind_move_to, kind_with_inputs]

theorem settings_settle (image : Image) (store : Store) {settings : Settings}
    (loose : image.home = .loose settings) :
    (image.settle store).1.settings (image.settle store).2 = settings := by
  rw [settle_loose image store loose]
  simp [Image.settings]

theorem length_settle_all (images : List Image) (store : Store) :
    (settleAll images store).1.length = images.length := by
  induction images generalizing store with
  | nil => rfl
  | cons image images induction => simp [settleAll, induction]

theorem size_le_settle_all (images : List Image) (store : Store) :
    store.size ≤ (settleAll images store).2.size := by
  obtain ⟨added, adds⟩ := store_settle_all images store
  rw [adds, Array.size_append]
  exact Nat.le_add_right _ _

end ImageGraph.Image
