import ImageGraph.Proofs.Parts
import Mathlib.Logic.Equiv.Defs

/-!
Relocating. What is settled into a store goes behind all that the store has, so where the parts of an
image go depends on the size of the store only. An image that is settled into another store is the same
but for the addresses of its new parts, which are moved as the end of the store is.
-/

set_option autoImplicit false

namespace ImageGraph

def Home.rename (move : Address → Address) : Home → Home
  | stored address => stored (move address)
  | loose settings => loose settings

namespace Image

/-- Each stored part of the image stays where it is. -/
def Unmoved (move : Address → Address) (image : Image) : Prop :=
  ∀ part ∈ image.parts, ∀ address, part.home = .stored address → move address = address

variable {move : Address → Address} {image : Image}

theorem Unmoved.input {input : Image} (unmoved : image.Unmoved move) (isInput : input ∈ image.inputs) :
    input.Unmoved move := by
  intro part within address home
  exact unmoved part ((mem_parts_iff part image).2 (.inr ⟨input, isInput, within⟩)) address home

theorem Unmoved.renamed (unmoved : image.Unmoved move) :
    image.mapHomes (Home.rename move) = image := by
  apply map_homes_id
  intro part within
  cases home : part.home with
  | stored address => rw [Home.rename, unmoved part within address home]
  | loose settings => rfl

theorem with_inputs_again (image : Image) (between inputs : List Image)
    (count : inputs.length = image.inputs.length) :
    (image.withInputs between).withInputs inputs = image.withInputs inputs := by
  cases image with
  | generator home kind resolution => rfl
  | filter home kind input =>
      obtain ⟨only, rfl⟩ := List.length_eq_one_iff.1 count
      rcases between with _ | ⟨_, _ | ⟨_, _⟩⟩ <;> rfl
  | merger home kind first second =>
      obtain ⟨left, right, rfl⟩ := List.length_eq_two.1 count
      rcases between with _ | ⟨_, _ | ⟨_, _ | ⟨_, _⟩⟩⟩ <;> rfl
  | collage home kind first others =>
      obtain ⟨head, tail, rfl⟩ := List.exists_cons_of_length_eq_add_one count
      cases between <;> rfl

/-- The image is settled into both stores alike. -/
def Relocates (move : Address → Address) (image : Image) (store other : Store) : Prop :=
  ∃ added, (image.settle store).2 = store ++ added ∧
    image.settle other = ((image.settle store).1.mapHomes (Home.rename move), other ++ added)

/-- What is put behind a store up to a new end is moved behind another store. -/
def Shifts (move : Address → Address) (store other : Store) (final : Nat) : Prop :=
  ∀ offset, store.size + offset < final → move (store.size + offset) = other.size + offset

variable {store other : Store}

theorem Shifts.weaken {final lower : Nat} (shifts : Shifts move store other final)
    (atMost : lower ≤ final) : Shifts move store other lower := by
  intro offset before
  exact shifts offset (Nat.lt_of_lt_of_le before atMost)

theorem Shifts.behind {final : Nat} (shifts : Shifts move store other final) (added : Store) :
    Shifts move (store ++ added) (other ++ added) final := by
  intro offset before
  rw [Array.size_append, Nat.add_assoc] at before ⊢
  rw [Array.size_append, Nat.add_assoc]
  exact shifts (added.size + offset) before

theorem relocates_all {images : List Image}
    (each : ∀ image ∈ images, ∀ store other, Shifts move store other (image.settle store).2.size →
      image.Relocates move store other)
    (shifts : Shifts move store other (settleAll images store).2.size) :
    ∃ added, (settleAll images store).2 = store ++ added ∧
      settleAll images other =
        ((settleAll images store).1.map (mapHomes (Home.rename move)), other ++ added) := by
  induction images generalizing store other with
  | nil => exact ⟨#[], by simp [settleAll]⟩
  | cons image images induction =>
      rw [List.forall_mem_cons] at each
      have within := size_le_settle_all images (image.settle store).2
      obtain ⟨head, headAdds, headSettles⟩ := each.1 store other (shifts.weaken within)
      have shiftsBehind := shifts.behind head
      simp only [settleAll, headAdds] at shiftsBehind
      obtain ⟨tail, tailAdds, tailSettles⟩ := induction each.2 shiftsBehind
      refine ⟨head ++ tail, ?_, ?_⟩
      · simp only [settleAll, headAdds, tailAdds, Array.append_assoc]
      · simp only [settleAll, headSettles, headAdds, tailSettles, List.map_cons, Array.append_assoc]

/-- An image is settled into another store as into this one, if its stored parts stay and the places
of its new parts are moved. -/
theorem relocates (unmoved : image.Unmoved move)
    (shifts : Shifts move store other (image.settle store).2.size) :
    image.Relocates move store other := by
  induction image using of_inputs generalizing store other with
  | step image induction =>
      cases home : image.home with
      | stored address =>
          refine ⟨#[], ?_, ?_⟩
          · rw [settle_stored image store home, Array.append_empty]
          · rw [settle_stored image store home, settle_stored image other home, unmoved.renamed,
              Array.append_empty]
      | loose settings =>
          rw [settle_loose image store home, Array.size_push] at shifts
          obtain ⟨below, belowAdds, belowSettles⟩ := relocates_all
            (fun input isInput _ _ => induction input isInput (unmoved.input isInput))
            (shifts.weaken (Nat.le_succ _))
          have count := length_settle_all image.inputs store
          have own : move (store ++ below).size = (other ++ below).size := by
            rw [belowAdds, Array.size_append] at shifts
            rw [Array.size_append, Array.size_append]
            exact shifts below.size (Nat.lt_succ_self _)
          refine ⟨below.push settings, ?_, ?_⟩
          · rw [settle_loose image store home, belowAdds, Array.push_append]
          · rw [settle_loose image store home, settle_loose image other home, belowSettles, belowAdds,
              map_homes_eq]
            simp only [inputs_move_to, home_move_to, with_inputs_move_to, move_to_move_to]
            rw [inputs_with_inputs image _ count, with_inputs_again image _ _ (by simpa using count),
              Home.rename, own, Array.push_append]

theorem settle_elsewhere {added : Store} (unmoved : image.Unmoved move)
    (adds : (image.settle store).2 = store ++ added)
    (shifts : Shifts move store other (store ++ added).size) :
    image.settle other = ((image.settle store).1.mapHomes (Home.rename move), other ++ added) := by
  rw [← adds] at shifts
  obtain ⟨same, sameAdds, settles⟩ := relocates unmoved shifts
  rw [adds, Array.append_right_inj] at sameAdds
  rw [settles, ← sameAdds]

end Image

end ImageGraph
