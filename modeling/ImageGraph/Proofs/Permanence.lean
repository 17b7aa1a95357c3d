import ImageGraph.Proofs.Frame
import ImageGraph.Proofs.Outlines

/-!
Permanence of outlines. Of what an outline shows of an image only the blend modes can change: kinds,
resolutions and inputs are there to stay. So whatever becomes of the names of an image and of what it is
made from, and whatever else is set or fails, the outline remains until one of these modes is set.
-/

set_option autoImplicit false

namespace ImageGraph

namespace Image

variable {image : Image} {before after : Store}

theorem unfold_congr
    (same : ∀ part ∈ image.parts, part.value? after "mode" = part.value? before "mode") :
    image.unfold after = image.unfold before := by
  induction image using of_inputs with
  | step image induction =>
      have headers : image.header after = image.header before := by
        rw [header, header, same image image.self_mem_parts]
      have inputs : image.inputs.map (unfold after) = image.inputs.map (unfold before) := by
        apply List.map_congr_left
        intro input isInput
        apply induction input isInput
        intro part within
        exact same part ((mem_parts_iff part image).2 (.inr ⟨input, isInput, within⟩))
      rw [unfold_eq, unfold_eq, headers, inputs]

theorem outline_congr
    (same : ∀ part ∈ image.parts, part.value? after "mode" = part.value? before "mode") :
    image.outline after = image.outline before := by
  apply String.toList_inj.1
  rw [outline, outline, outline_at_chars, outline_at_chars, unfold_congr same]

end Image

namespace Session

/-- The image whose mode a command sets, if it succeeds in setting one. -/
def modeSetBy? (session : Session) (command : Command) : Option Image :=
  match (session.step command).1 with
  | .ok (.propertySet name "mode") => session.names.get? name
  | _ => none

/-- The command sets the mode of the image or of one that it is made from. -/
def SetsModeWithin (session : Session) (command : Command) (node : Image) : Prop :=
  ∃ image ∈ session.modeSetBy? command, ∃ part ∈ node.parts, part.SameAs image

/-- No command of a run sets a mode within the image. -/
def SparesModes (node : Image) (session : Session) : List Command → Prop
  | [] => True
  | command :: commands =>
      ¬session.SetsModeWithin command node ∧ SparesModes node (session.step command).2 commands

instance (image other : Image) : Decidable (image.SameAs other) :=
  inferInstanceAs (Decidable (_ ∧ (_ → _)))

instance (session : Session) (command : Command) (node : Image) :
    Decidable (session.SetsModeWithin command node) :=
  inferInstanceAs (Decidable (∃ image ∈ session.modeSetBy? command, _))

instance decidableSparesModes (node : Image) :
    (session : Session) → (commands : List Command) → Decidable (SparesModes node session commands)
  | _, [] => .isTrue trivial
  | session, command :: commands =>
      @instDecidableAnd _ _ inferInstance
        (decidableSparesModes node (session.step command).2 commands)

/-- What exists after a run: all that an image is made from which has had a name at some time, or which
has been compiled and handed out without a name. -/
inductive Existing (defaults : Defaults) (commands : List Command) (node : Image) : Prop where
  | named {earlier later : List Command} {name : String} {image : Image}
      (whole : commands = earlier ++ later)
      (bound : ((start defaults).run earlier).names.get? name = some image)
      (within : node ∈ image.parts)
  | compiled {earlier later : List Command} {text : String} {image : Image}
      (whole : commands = earlier ++ later)
      (compiled : ((start defaults).run earlier).compile text = .ok image)
      (within : node ∈ image.parts)

variable {catalog : Catalog} {session : Session} {node : Image}

theorem Existing.known {defaults : Defaults} {commands : List Command}
    (existing : Existing defaults commands node) :
    ∃ catalog : Catalog, ((start defaults).run commands).Recorded catalog ∧
      node.Known ((start defaults).run commands).defaults catalog := by
  -- The image was known when it got its name or was compiled, and catalogs only grow.
  have lasting {earlier later : List Command} {image : Image} (within : node ∈ image.parts)
      (known : ∀ catalog : Catalog, ((start defaults).run earlier).Recorded catalog →
        image.Known ((start defaults).run earlier).defaults catalog) :
      ∃ catalog : Catalog, ((start defaults).run (earlier ++ later)).Recorded catalog ∧
        node.Known ((start defaults).run (earlier ++ later)).defaults catalog := by
    obtain ⟨first, recorded, _⟩ := (recorded_start defaults).run earlier
    obtain ⟨more, recordedLater, _⟩ := recorded.run later
    have nodeKnown := (known _ recorded).parts recorded.describes within
    rw [← run_append] at recordedLater
    refine ⟨_, recordedLater, ?_⟩
    rw [run_defaults] at nodeKnown ⊢
    exact Image.known_append more nodeKnown
  cases existing with
  | named whole bound within =>
      subst whole
      exact lasting within fun _ recorded => recorded.known _ _ bound
  | compiled whole compiled within =>
      subst whole
      exact lasting within fun _ recorded => compile_known recorded.known compiled

/-- A command that does not set a mode within an image leaves all modes there as they are. -/
theorem Recorded.keeps_modes (recorded : session.Recorded catalog)
    (known : node.Known session.defaults catalog) {command : Command}
    (spares : ¬session.SetsModeWithin command node) :
    ∀ part ∈ node.parts,
      part.value? (session.step command).2.store "mode" = part.value? session.store "mode" := by
  have partsKnown : ∀ part, part ∈ node.parts → part.Known session.defaults catalog :=
    fun part within => known.parts recorded.describes within
  have effect := session.step_effect command
  unfold SetsModeWithin modeSetBy? at spares
  generalize (session.step command).1 = result, (session.step command).2 = changed
    at effect spares ⊢
  intro part within
  cases effect with
  | failed error => rfl
  | nothing => rfl
  | listed entries => rfl
  | shown compiled => rfl
  | named sides identifier compiled =>
      exact (recorded.registers partsKnown identifier compiled).unaltered part within "mode"
  | @changed path text name property image declared value sides stores =>
      rw [(recorded.replaces partsKnown stores).seen part within "mode", if_neg]
      rintro ⟨sameAddress, rfl⟩
      obtain ⟨address, home, _⟩ := recorded.address_of_name stores.bound
      have isAddress := (image.address_eq_some address).2 home
      have same : part.SameAs image := by
        refine ⟨sameAddress, ?_⟩
        rw [sameAddress, isAddress]
        nofun
      exact spares ⟨image, stores.bound, part, within, same⟩

theorem Recorded.keeps_outline (recorded : session.Recorded catalog)
    (known : node.Known session.defaults catalog) {commands : List Command}
    (spares : session.SparesModes node commands) :
    node.outline (session.run commands).store = node.outline session.store := by
  induction commands generalizing session catalog with
  | nil => rfl
  | cons command commands induction =>
      obtain ⟨more, recordedAfter, _⟩ := recorded.step command
      have knownAfter : node.Known (session.step command).2.defaults (catalog ++ more) := by
        rw [session.step_defaults command]
        exact Image.known_append more known
      have first := Image.outline_congr (recorded.keeps_modes known spares.1)
      exact (induction recordedAfter knownAfter spares.2).trans first

/-- The outline of an image that exists at some time remains the same text in every further run, as
long as no mode is set within the image. -/
theorem outline_lasts (defaults : Defaults) (earlier later : List Command)
    (existing : Existing defaults earlier node)
    (spares : ((start defaults).run earlier).SparesModes node later) :
    node.outline ((start defaults).run (earlier ++ later)).store =
      node.outline ((start defaults).run earlier).store := by
  obtain ⟨catalog, recorded, known⟩ := existing.known
  rw [run_append]
  exact recorded.keeps_outline known spares

/-- A sum keeps its outline although both names are given away, settings are changed under another name,
a mode is set in what is made from the sum, and a command fails. -/
theorem outline_of_sum_lasts :
    let earlier : List Command := [.line "n = noise(8)", .line "h = blur(n) + n"]
    let later : List Command :=
      [.line "g = h", .line "n = circle(4)", .line "k = h & 0.5", .line "k.mode = .over",
        .line "g.rotation = 3", .line "h = missing", .line "h = n"]
    let noise := Image.generator (.stored 0) .noise ⟨8, 8⟩
    let sum := Image.merger (.stored 2) .blend (.filter (.stored 1) .blur noise) noise
    ((start .standard).run earlier).names.get? "h" = some sum ∧
    ((start .standard).run earlier).SparesModes sum later ∧
    ((start .standard).run (earlier ++ later)).names.get? "h" ≠ some sum ∧
    sum.outline ((start .standard).run (earlier ++ later)).store =
      "blend .add\n  a: blur\n    noise 8x8\n  b: noise 8x8\n" := by
  intro earlier later noise sum
  have bound : ((start .standard).run earlier).names.get? "h" = some sum := by decide +kernel
  have spares : ((start .standard).run earlier).SparesModes sum later := by decide +kernel
  have existing : Existing .standard earlier sum :=
    .named (List.append_nil earlier).symm bound sum.self_mem_parts
  refine ⟨bound, spares, by decide +kernel, ?_⟩
  rw [outline_lasts .standard earlier later existing spares]
  decide +kernel

end Session

end ImageGraph
