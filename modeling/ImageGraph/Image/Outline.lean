import ImageGraph.Image

/-!
Outlines: an image and all that it is made from, one line each, indented by depth.
-/

set_option autoImplicit false

namespace ImageGraph.Image

/-- What an outline shows of an image itself: its kind, its resolution if it is a generator, and its
blend mode if its kind has one. -/
def heading (store : Store) (image : Image) : String :=
  let resolution := match image.resolution? with
    | some resolution => " " ++ resolution.text
    | none => ""
  let mode := match image.value? store "mode" with
    | some (.choice mode) => " " ++ Text.dotted mode
    | _ => ""
  image.kind.name ++ resolution ++ mode

def outlineLine (depth : Nat) (label heading : String) : String :=
  String.ofList (List.replicate (2 * depth) ' ') ++ label ++ heading ++ "\n"

mutual

/-- The outline of an image at some depth and with a label in front. The two inputs of a merger are
labelled by letters and those of a collage by their position. -/
def outlineAt (store : Store) (depth : Nat) (label : String) : Image → String
  | generator home kind resolution =>
      outlineLine depth label (heading store (generator home kind resolution))
  | filter home kind input =>
      outlineLine depth label (heading store (filter home kind input)) ++
        outlineAt store (depth + 1) "" input
  | merger home kind first second =>
      outlineLine depth label (heading store (merger home kind first second)) ++
        outlineAt store (depth + 1) "a: " first ++ outlineAt store (depth + 1) "b: " second
  | collage home kind first others =>
      outlineLine depth label (heading store (collage home kind first others)) ++
        outlineAt store (depth + 1) "0: " first ++ outlineOthers store (depth + 1) 1 others

def outlineOthers (store : Store) (depth position : Nat) : List Image → String
  | [] => ""
  | image :: images =>
      outlineAt store depth (Nat.repr position ++ ": ") image ++
        outlineOthers store depth (position + 1) images

end

def outline (store : Store) (image : Image) : String := outlineAt store 0 "" image

end ImageGraph.Image
