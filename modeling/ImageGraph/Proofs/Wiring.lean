import ImageGraph.Proofs.Recorded
import Mathlib.Order.RelClasses

/-!
Wiring. Whatever can be reached in a run, from a name or from an image that a command has shown, is
made from as many images as its kind takes; these exist, and following them comes to an end.
Addresses decide which images are the same, so this speaks of shared images and not only of the trees
in which they occur.
-/

set_option autoImplicit false

namespace ImageGraph

theorem Registry.get_of_listed {names : Registry} {name : String} (listed : name ∈ names.names) :
    ∃ image, names.get? name = some image := by
  obtain ⟨entry, member, rfl⟩ := List.mem_map.1 listed
  rw [← Option.isSome_iff_exists, Registry.get?, List.lookup_isSome_iff]
  exact ⟨entry, member, beq_self_eq_true _⟩

namespace Image

/-- An image is made from the images that its kind takes, and a generator has a positive resolution
instead. -/
def Wired (image : Image) : Prop :=
  match image.kind with
  | .generator _ =>
      image.inputs = [] ∧ ∃ resolution, image.resolution? = some resolution ∧ resolution.Positive
  | .filter _ => image.resolution? = none ∧ ∃ input, image.inputs = [input]
  | .merger _ => image.resolution? = none ∧ ∃ first second, image.inputs = [first, second]
  | .collage _ => image.resolution? = none ∧ image.inputs ≠ []

/-- The settings of a stored image are in the store; a loose image carries its own. -/
def Exists (store : Store) (image : Image) : Prop :=
  ∀ address, image.address? = some address → address < store.size

/-- Images are the same if they have the same address. Loose images are the same if they are alike. -/
def SameAs (image other : Image) : Prop :=
  image.address? = other.address? ∧ (image.address? = none → image = other)

theorem size_of_input {input image : Image} (isInput : input ∈ image.inputs) :
    sizeOf input < sizeOf image := by
  cases image with
  | generator home kind resolution => cases isInput
  | filter home kind only =>
      obtain rfl := List.mem_singleton.1 isInput
      simp only [filter.sizeOf_spec]
      omega
  | merger home kind first second =>
      have cases : input = first ∨ input = second := by simpa [inputs] using isInput
      simp only [merger.sizeOf_spec]
      rcases cases with rfl | rfl
      · omega
      · omega
  | collage home kind first others =>
      simp only [collage.sizeOf_spec]
      rcases List.mem_cons.1 isInput with rfl | later
      · omega
      · have smaller := List.sizeOf_lt_of_mem later
        omega

section Known

variable {defaults : Defaults} {catalog : Catalog} {store : Store} {image : Image}

theorem Known.eq_of_same (known : image.Known defaults catalog)
    (describes : catalog.Describes defaults store) {other : Image}
    (otherKnown : other.Known defaults catalog) (same : image.SameAs other) : image = other := by
  rcases stored : image.address? with _ | address
  · exact same.2 stored
  · have listed := known.listed describes stored
    have otherListed := otherKnown.listed describes (same.1.symm.trans stored)
    exact Option.some.inj (listed.symm.trans otherListed)

theorem Known.exists_in (known : image.Known defaults catalog)
    (describes : catalog.Describes defaults store) : image.Exists store :=
  fun _ stored => describes.address_lt (known.listed describes stored)

theorem Known.admitted (known : image.Known defaults catalog)
    (describes : catalog.Describes defaults store) {resolution : Resolution}
    (isGenerator : image.resolution? = some resolution) : defaults.Admits resolution := by
  cases known with
  | stored listed home => exact (describes.wellMade _ _ listed).admitted resolution isGenerator
  | loose home wellMade inputs => exact wellMade.admitted resolution isGenerator

theorem Known.wired (known : image.Known defaults catalog)
    (describes : catalog.Describes defaults store) (generated : defaults.generated.Positive)
    (constant : defaults.constant.Positive) : image.Wired := by
  cases image with
  | generator home kind resolution =>
      refine ⟨rfl, resolution, rfl, ?_⟩
      rcases known.admitted describes rfl with positive | rfl | rfl
      · exact positive
      · exact generated
      · exact constant
  | filter home kind input => exact ⟨rfl, input, rfl⟩
  | merger home kind first second => exact ⟨rfl, first, second, rfl⟩
  | collage home kind first others => exact ⟨rfl, List.cons_ne_nil first others⟩

end Known

end Image

namespace Session

/-- What can be reached after a run: the parts of all images that have names, and of all images that
a command has shown. -/
inductive Reached (defaults : Defaults) (commands : List Command) (node : Image) : Prop where
  | named {name : String} {image : Image}
      (bound : ((start defaults).run commands).names.get? name = some image)
      (within : node ∈ image.parts)
  | shown {image : Image} (isShown : image ∈ (start defaults).shown commands)
      (within : node ∈ image.parts)

variable {defaults : Defaults} {commands : List Command}

/-- An image feeds another if it is the same as one of the other's inputs. -/
def Feeds (defaults : Defaults) (commands : List Command) (image other : Image) : Prop :=
  Reached defaults commands image ∧ Reached defaults commands other ∧
    ∃ input ∈ other.inputs, image.SameAs input

theorem Reached.input {node input : Image} (reached : Reached defaults commands node)
    (isInput : input ∈ node.inputs) : Reached defaults commands input := by
  have deeper := Image.input_mem_parts isInput
  cases reached with
  | named bound within => exact .named bound (Image.parts_trans within deeper)
  | shown isShown within => exact .shown isShown (Image.parts_trans within deeper)

theorem shown_append (session : Session) (earlier later : List Command) :
    session.shown (earlier ++ later) =
      session.shown earlier ++ (session.run earlier).shown later := by
  induction earlier generalizing session with
  | nil => rfl
  | cons command commands induction =>
      rw [List.cons_append, shown, induction, shown, List.append_assoc]
      rfl

theorem Recorded.describes_run {catalog : Catalog}
    (recorded : ((start defaults).run commands).Recorded catalog) :
    catalog.Describes defaults ((start defaults).run commands).store := by
  have describes := recorded.describes
  rw [run_defaults] at describes
  exact describes

theorem Reached.known {catalog : Catalog} {node : Image}
    (recorded : ((start defaults).run commands).Recorded catalog)
    (shownKnown : ∀ image ∈ (start defaults).shown commands, image.Known defaults catalog)
    (reached : Reached defaults commands node) : node.Known defaults catalog := by
  cases reached with
  | named bound within =>
      have known := recorded.known _ _ bound
      rw [run_defaults] at known
      exact Image.Known.parts known recorded.describes_run within
  | shown isShown within => exact (shownKnown _ isShown).parts recorded.describes_run within

/-- One catalog describes the store after a run and lists what was reached at any time before. -/
theorem run_recorded (defaults : Defaults) (earlier later : List Command) :
    ∃ catalog : Catalog, ((start defaults).run (earlier ++ later)).Recorded catalog ∧
      (∀ node, Reached defaults earlier node → node.Known defaults catalog) ∧
      ∀ node, Reached defaults (earlier ++ later) node → node.Known defaults catalog := by
  obtain ⟨first, recordedFirst, shownFirst⟩ := (recorded_start defaults).run earlier
  obtain ⟨rest, recordedRest, shownRest⟩ := recordedFirst.run later
  rw [← run_append] at recordedRest
  refine ⟨_, recordedRest, ?_, ?_⟩
  · intro node reached
    exact Image.known_append rest (reached.known recordedFirst shownFirst)
  · intro node reached
    apply reached.known recordedRest
    intro image isShown
    rw [shown_append] at isShown
    rcases List.mem_append.1 isShown with before | after
    · exact Image.known_append rest (shownFirst image before)
    · have known := shownRest image after
      rw [run_defaults] at known
      exact known

/-- All that is reached in a run is in order. -/
structure FullyWired (defaults : Defaults) (commands : List Command) : Prop where
  /-- Every image is made from what its kind takes. -/
  wired : ∀ node, Reached defaults commands node → node.Wired
  /-- Every input is there, and can be reached itself. -/
  inputs_exist : ∀ node, Reached defaults commands node → ∀ input ∈ node.inputs,
    Reached defaults commands input ∧ input.Exists ((start defaults).run commands).store
  /-- No image feeds itself, not even through others. -/
  acyclic : ∀ node, ¬Relation.TransGen (Feeds defaults commands) node node
  ends : WellFounded (Feeds defaults commands)
  /-- An image that was reached earlier in the run is still of that kind, and made from the same. -/
  permanent : ∀ earlier later, commands = earlier ++ later → ∀ before after,
    Reached defaults earlier before → Reached defaults commands after → before.SameAs after →
      before = after
  identifiers : ∀ name ∈ ((start defaults).run commands).names.names, isIdentifier name = true

theorem feeds_ends (defaults : Defaults) (commands : List Command) :
    WellFounded (Feeds defaults commands) := by
  obtain ⟨catalog, recorded, _, known⟩ := run_recorded defaults [] commands
  -- What feeds an image is equal to one of its inputs, because both are listed.
  refine Subrelation.wf ?_ (measure (sizeOf : Image → Nat)).wf
  intro image other feeds
  rcases feeds with ⟨reached, otherReached, input, isInput, same⟩
  obtain rfl := (known image reached).eq_of_same recorded.describes_run
    (known input (otherReached.input isInput)) same
  exact Image.size_of_input isInput

/-- In every run of a session with positive resolutions, all that is reached is in order. -/
theorem run_fully_wired (defaults : Defaults) (commands : List Command)
    (generated : defaults.generated.Positive) (constant : defaults.constant.Positive) :
    FullyWired defaults commands := by
  obtain ⟨catalog, recorded, _, known⟩ := run_recorded defaults [] commands
  rw [List.nil_append] at recorded known
  have describes := recorded.describes_run
  constructor
  · intro node reached
    exact (known node reached).wired describes generated constant
  · intro node reached input isInput
    have inputReached := reached.input isInput
    exact ⟨inputReached, (known input inputReached).exists_in describes⟩
  · intro node cycle
    exact (feeds_ends defaults commands).transGen.asymmetric node node cycle cycle
  · exact feeds_ends defaults commands
  · intro earlier later isWhole before after beforeReached afterReached same
    subst isWhole
    obtain ⟨catalog, recorded, knownBefore, knownAfter⟩ := run_recorded defaults earlier later
    exact (knownBefore before beforeReached).eq_of_same recorded.describes_run
      (knownAfter after afterReached) same
  · intro name listed
    obtain ⟨image, bound⟩ := Registry.get_of_listed listed
    exact recorded.identifiers name image bound

/-- Both inputs of the new image are the one image that had its name before. -/
theorem rebinding_fully_wired :
    (((start .standard).run [.line "g = noise(64)", .line "g = blend(g, g)"]).names.get? "g" =
      some (.merger (.stored 1) .blend (.generator (.stored 0) .noise ⟨64, 64⟩)
        (.generator (.stored 0) .noise ⟨64, 64⟩))) ∧
    Defaults.standard.generated.Positive ∧ Defaults.standard.constant.Positive ∧
    FullyWired .standard [.line "g = noise(64)", .line "g = blend(g, g)"] := by
  have generated : Defaults.standard.generated.Positive := by
    constructor <;> decide
  have constant : Defaults.standard.constant.Positive := by
    constructor <;> decide
  exact ⟨by decide +kernel, generated, constant, run_fully_wired _ _ generated constant⟩

end Session

end ImageGraph
