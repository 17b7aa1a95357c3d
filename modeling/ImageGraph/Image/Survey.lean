import ImageGraph.Image

/-!
Surveys: the images that one or several images are made from, each listed once. Images are numbered
in the order in which they are met, an image before its inputs and the inputs in their order. A
stored image that is met again keeps its number.
-/

set_option autoImplicit false

namespace ImageGraph

structure Survey.Entry where
  kind : Kind
  resolution : Option Resolution
  inputs : List Nat
  settings : Settings

structure Survey where
  entries : Array Survey.Entry
  /-- The numbers of the stored images. -/
  numbers : List (Address × Nat)

namespace Survey

def empty : Survey := ⟨#[], []⟩

def number? (survey : Survey) (image : Image) : Option Nat :=
  image.address?.bind fun address => survey.numbers.lookup address

def register (survey : Survey) (store : Store) (image : Image) : Survey where
  entries := survey.entries.push ⟨image.kind, image.resolution?, [], image.settings store⟩
  numbers :=
    match image.address? with
    | some address => (address, survey.entries.size) :: survey.numbers
    | none => survey.numbers

def connect (survey : Survey) (number : Nat) (inputs : List Nat) : Survey :=
  { survey with entries := survey.entries.modify number fun entry => { entry with inputs } }

mutual

/-- Visit an image and all that it is made from, and return its number. -/
def visit (store : Store) : Image → Survey → Nat × Survey
  | .generator home kind resolution, survey =>
      let image := Image.generator home kind resolution
      match survey.number? image with
      | some number => (number, survey)
      | none => (survey.entries.size, survey.register store image)
  | .filter home kind input, survey =>
      let image := Image.filter home kind input
      match survey.number? image with
      | some number => (number, survey)
      | none =>
          let (inputNumber, visited) := visit store input (survey.register store image)
          (survey.entries.size, visited.connect survey.entries.size [inputNumber])
  | .merger home kind first second, survey =>
      let image := Image.merger home kind first second
      match survey.number? image with
      | some number => (number, survey)
      | none =>
          let (firstNumber, visited) := visit store first (survey.register store image)
          let (secondNumber, visited) := visit store second visited
          (survey.entries.size, visited.connect survey.entries.size [firstNumber, secondNumber])
  | .collage home kind first others, survey =>
      let image := Image.collage home kind first others
      match survey.number? image with
      | some number => (number, survey)
      | none =>
          let (firstNumber, visited) := visit store first (survey.register store image)
          let (otherNumbers, visited) := visitAll store others visited
          (survey.entries.size, visited.connect survey.entries.size (firstNumber :: otherNumbers))

def visitAll (store : Store) : List Image → Survey → List Nat × Survey
  | [], survey => ([], survey)
  | image :: images, survey =>
      let (number, visited) := visit store image survey
      let (numbers, visited) := visitAll store images visited
      (number :: numbers, visited)

end

end Survey

end ImageGraph
