import ImageGraph.Image.Outline
import ImageGraph.Proofs.Catalog
import ImageGraph.Proofs.ReadBack

/-!
Outlines tell images apart. Whatever an outline is meant to show of an image can be read off its text:
the kind of the image and of all that it is made from, their resolutions and blend modes, and the order
of inputs. Each line ends at its newline, a word in it at the next blank, and the lines that belong to
an input are those that are indented more deeply than its own.
-/

set_option autoImplicit false

namespace ImageGraph

open Expr.Token (isWordChar)

/-- What a line of an outline tells of an image. -/
structure Header where
  kind : Kind
  resolution : Option Resolution
  mode : Option Property.Value

/-- An image unfolded into a tree, with as much of each image as an outline shows. -/
inductive Unfolding where
  | node (header : Header) (inputs : List Unfolding)

namespace Image

def header (store : Store) (image : Image) : Header :=
  ⟨image.kind, image.resolution?, image.value? store "mode"⟩

mutual

def unfold (store : Store) : Image → Unfolding
  | generator home kind resolution => .node (header store (generator home kind resolution)) []
  | filter home kind input => .node (header store (filter home kind input)) [unfold store input]
  | merger home kind first second =>
      .node (header store (merger home kind first second)) [unfold store first, unfold store second]
  | collage home kind first others =>
      .node (header store (collage home kind first others))
        (unfold store first :: unfoldAll store others)

def unfoldAll (store : Store) : List Image → List Unfolding
  | [] => []
  | image :: images => unfold store image :: unfoldAll store images

end

theorem unfold_all_eq (store : Store) (images : List Image) :
    unfoldAll store images = images.map (unfold store) := by
  induction images with
  | nil => rfl
  | cons image images induction => rw [unfoldAll, induction, List.map_cons]

theorem unfold_eq (store : Store) (image : Image) :
    image.unfold store = .node (image.header store) (image.inputs.map (unfold store)) := by
  cases image <;> simp [unfold, inputs, unfold_all_eq]

end Image

namespace Text

variable {inside : Char → Bool} {first second behind beyond : List Char}

theorem take_run (run : ∀ char ∈ first, inside char = true)
    (ends : Expr.Token.Leaves inside behind) : (first ++ behind).takeWhile inside = first := by
  rw [List.takeWhile_append_of_pos run, ends.take, List.append_nil]

theorem run_cancel (run : ∀ char ∈ first, inside char = true)
    (otherRun : ∀ char ∈ second, inside char = true)
    (ends : ∀ char ∈ behind.head?, inside char = false)
    (otherEnds : ∀ char ∈ beyond.head?, inside char = false)
    (same : first ++ behind = second ++ beyond) : first = second ∧ behind = beyond := by
  have runs : first = second := by
    rw [← take_run run ends, same, take_run otherRun otherEnds]
  subst runs
  exact ⟨rfl, List.append_cancel_left same⟩

end Text

theorem Kind.name_injective {first second : Kind} (same : first.name = second.name) :
    first = second := by
  have found := Constructor.named_name (.image first)
  rw [show (Constructor.image first).name = (Constructor.image second).name from same,
    Constructor.named_name] at found
  exact (Constructor.image.inj (Option.some.inj found)).symm

theorem Kind.mode_declared {kind : Kind} {declared : Property}
    (found : Settings.property? kind.properties "mode" = some declared) :
    declared.kind = .choice blendModeCases ∧ ∀ source, kind ≠ .generator source := by
  have ofGenerator : ∀ source ∈ Generator.all,
      Settings.property? source.properties "mode" = none := by decide +kernel
  have ofAny : ∀ kind ∈ Kind.all, ∀ declared ∈ Settings.property? kind.properties "mode",
      declared.kind = .choice blendModeCases := by decide +kernel
  refine ⟨ofAny kind kind.mem_all declared found, ?_⟩
  rintro source rfl
  have none := ofGenerator source (by cases source <;> decide)
  cases none.symm.trans found

namespace Resolution

theorem text_chars (resolution : Resolution) :
    resolution.text.toList =
      (Nat.repr resolution.width).toList ++ 'x' :: (Nat.repr resolution.height).toList := by
  simp [text]

theorem text_injective {first second : Resolution} (same : first.text = second.text) :
    first = second := by
  have behind (number : Nat) :
      ∀ char ∈ ('x' :: (Nat.repr number).toList).head?, char.isDigit = false := by
    intro char isHead
    cases isHead
    decide
  have chars := congrArg String.toList same
  rw [text_chars, text_chars] at chars
  obtain ⟨widths, rest⟩ := Text.run_cancel (Number.is_digit_of_repr _) (Number.is_digit_of_repr _)
    (behind _) (behind _) chars
  have width : first.width = second.width := by
    rw [← Number.read_digits_repr first.width, widths, Number.read_digits_repr]
  have height : first.height = second.height := by
    rw [← Number.read_digits_repr first.height, (List.cons.inj rest).2, Number.read_digits_repr]
  cases first
  cases second
  exact congr (congrArg mk width) height

theorem text_unbroken (resolution : Resolution) : '\n' ∉ resolution.text.toList := by
  have digits (number : Nat) : '\n' ∉ (Nat.repr number).toList := fun member =>
    absurd (Number.is_digit_of_repr number _ member) (by decide)
  rw [text_chars, List.mem_append, List.mem_cons]
  rintro (inWidth | isCross | inHeight)
  · exact digits _ inWidth
  · exact absurd isCross (by decide)
  · exact digits _ inHeight

end Resolution

namespace Header

def resolutionChars : Option Resolution → List Char
  | some resolution => ' ' :: resolution.text.toList
  | none => []

def modeChars : Option Property.Value → List Char
  | some (.choice mode) => ' ' :: '.' :: mode.toList
  | _ => []

def chars (header : Header) : List Char :=
  header.kind.name.toList ++ (resolutionChars header.resolution ++ modeChars header.mode)

/-- Generators have a resolution and no blend mode. Other kinds have no resolution, and if they have a
blend mode, it is one of those that there are. -/
inductive Legible : Header → Prop where
  | generator (source : Generator) (resolution : Resolution) :
      Legible ⟨.generator source, some resolution, none⟩
  | plain {kind : Kind} (other : ∀ source, kind ≠ .generator source) : Legible ⟨kind, none, none⟩
  | blending {kind : Kind} {mode : String} (other : ∀ source, kind ≠ .generator source)
      (declared : mode ∈ blendModeCases) : Legible ⟨kind, none, some (.choice mode)⟩

variable {first second : Header}

theorem name_word (header : Header) : ∀ char ∈ header.kind.name.toList, isWordChar char = true :=
  (identifier_chars header.kind.name_identifier).2

theorem starts_solid (header : Header) (rest : List Char) :
    ∀ char ∈ (header.chars ++ rest).head?, char ≠ ' ' := by
  obtain ⟨first, others, name⟩ :=
    List.exists_cons_of_ne_nil (identifier_chars header.kind.name_identifier).1
  have word := header.name_word first (name ▸ List.mem_cons_self)
  intro char isHead
  rw [chars, name] at isHead
  cases isHead
  rintro rfl
  exact absurd word (by decide)

theorem word_unbroken {word : String} (identifier : isIdentifier word = true) :
    '\n' ∉ word.toList := fun member =>
  absurd ((identifier_chars identifier).2 _ member) (by decide)

theorem Legible.unbroken (legible : first.Legible) : '\n' ∉ first.chars := by
  have modesUnbroken : ∀ mode ∈ blendModeCases, isIdentifier mode = true := by decide +kernel
  rw [chars, List.mem_append]
  rintro (inName | behind)
  · exact word_unbroken first.kind.name_identifier inName
  · cases legible with
    | generator source resolution =>
        simp only [resolutionChars, modeChars, List.append_nil, List.mem_cons] at behind
        exact behind.elim (by decide) resolution.text_unbroken
    | plain other => cases behind
    | blending other declared =>
        simp only [resolutionChars, modeChars, List.nil_append, List.mem_cons] at behind
        rcases behind with isBlank | isDot | inMode
        · exact absurd isBlank (by decide)
        · exact absurd isDot (by decide)
        · exact word_unbroken (modesUnbroken _ declared) inMode

theorem word_ends (header : Header) :
    ∀ char ∈ (resolutionChars header.resolution ++ modeChars header.mode).head?,
      isWordChar char = false := by
  intro char isHead
  unfold resolutionChars modeChars at isHead
  split at isHead
  · cases isHead
    decide
  · split at isHead <;> cases isHead
    decide

/-- The text of a legible header tells all that it has. -/
theorem chars_injective (legible : first.Legible) (otherLegible : second.Legible)
    (same : first.chars = second.chars) : first = second := by
  obtain ⟨names, behind⟩ := Text.run_cancel first.name_word second.name_word first.word_ends
    second.word_ends same
  have kinds : first.kind = second.kind := Kind.name_injective (String.toList_injective names)
  cases legible with
  | generator source resolution =>
      cases otherLegible with
      | generator source size =>
          cases kinds
          simp only [resolutionChars, modeChars, List.append_nil, List.cons.injEq, true_and] at behind
          rw [Resolution.text_injective (String.toList_injective behind)]
      | plain other => cases behind
      | blending other declared => exact absurd kinds.symm (other source)
  | plain other =>
      cases kinds
      cases otherLegible with
      | generator source size => cases behind
      | plain other => rfl
      | blending other declared => cases behind
  | blending other declared =>
      cases kinds
      cases otherLegible with
      | generator source size => exact absurd rfl (other source)
      | plain other => cases behind
      | blending other declared =>
          simp only [resolutionChars, modeChars, List.nil_append, List.cons.injEq, true_and] at behind
          rw [String.toList_injective behind]

theorem chars_cancel {behind beyond : List Char} (legible : first.Legible)
    (otherLegible : second.Legible)
    (same : first.chars ++ '\n' :: behind = second.chars ++ '\n' :: beyond) :
    first = second ∧ behind = beyond := by
  have ends := Text.cut_list_first legible.unbroken behind
  rw [same, Text.cut_list_first otherLegible.unbroken, Option.some.injEq, Prod.mk.injEq] at ends
  exact ⟨chars_injective legible otherLegible ends.1.symm, ends.2.symm⟩

end Header

/-- The label in front of an input, by its position. -/
def Kind.label : Kind → Nat → String
  | .generator _, _ | .filter _, _ => ""
  | .merger _, 0 => "a: "
  | .merger _, _ => "b: "
  | .collage _, position => Nat.repr position ++ ": "

namespace Unfolding

mutual

def lines (depth : Nat) (label : String) : Unfolding → List Char
  | node header inputs =>
      List.replicate (2 * depth) ' ' ++ (label.toList ++ (header.chars ++
        '\n' :: linesOfInputs (depth + 1) header.kind 0 inputs))

def linesOfInputs (depth : Nat) (kind : Kind) (position : Nat) : List Unfolding → List Char
  | [] => []
  | input :: inputs =>
      lines depth (kind.label position) input ++ linesOfInputs depth kind (position + 1) inputs

end

inductive Legible : Unfolding → Prop where
  | node {header : Header} {inputs : List Unfolding} (own : header.Legible)
      (below : ∀ input ∈ inputs, Legible input) : Legible (.node header inputs)

/-- A text that is not indented to some depth. -/
def Outdented (depth : Nat) (chars : List Char) : Prop := ¬ List.replicate (2 * depth) ' ' <+: chars

theorem Outdented.deeper {depth : Nat} {behind : List Char} (outdented : Outdented depth behind) :
    Outdented (depth + 1) behind := by
  intro indented
  have shorter : List.replicate (2 * depth) ' ' <+: List.replicate (2 * (depth + 1)) ' ' := by
    simp [List.prefix_replicate_iff]
  exact outdented (shorter.trans indented)

theorem outdented_end (depth : Nat) : Outdented (depth + 1) [] := by
  intro indented
  simpa using indented.length_le

theorem label_solid (kind : Kind) (position : Nat) :
    ∀ char ∈ (kind.label position).toList.head?, char ≠ ' ' := by
  intro char isHead
  cases kind with
  | generator source => cases isHead
  | filter effect => cases isHead
  | merger combination =>
      have letters : char = 'a' ∨ char = 'b' := by
        cases position with
        | zero => exact .inl (by simpa [Kind.label] using isHead.symm)
        | succ position => exact .inr (by simpa [Kind.label] using isHead.symm)
      rcases letters with rfl | rfl <;> decide
  | collage arrangement =>
      rw [Kind.label, String.toList_append, List.head?_append, Option.mem_def,
        Option.or_eq_some_iff] at isHead
      rcases isHead with isDigit | ⟨_, isColon⟩
      · rintro rfl
        have digit := Number.is_digit_of_repr position _ (List.mem_of_mem_head? isDigit)
        exact absurd digit (by decide)
      · rintro rfl
        exact absurd isColon (by simp)

theorem line_outdented {depth : Nat} {label : String}
    (solid : ∀ char ∈ label.toList.head?, char ≠ ' ') (input : Unfolding) (behind : List Char) :
    Outdented (depth + 1) (lines depth label input ++ behind) := by
  intro indented
  obtain ⟨header, inputs⟩ := input
  rw [lines, Nat.mul_succ, ← List.replicate_append_replicate, List.append_assoc,
    List.prefix_append_right_inj, List.append_assoc, List.append_assoc] at indented
  obtain ⟨rest, starts⟩ := indented
  have head : (label.toList ++ (header.chars ++
      ('\n' :: linesOfInputs (depth + 1) header.kind 0 inputs ++ behind))).head? = some ' ' := by
    rw [← starts]
    rfl
  rw [List.head?_append, Option.or_eq_some_iff] at head
  rcases head with inLabel | ⟨_, inName⟩
  · exact solid ' ' inLabel rfl
  · exact header.starts_solid _ _ inName rfl

theorem indented_line {depth : Nat} (label : String) (input : Unfolding) (behind : List Char) :
    List.replicate (2 * depth) ' ' <+: lines depth label input ++ behind := by
  obtain ⟨header, inputs⟩ := input
  rw [lines, List.append_assoc]
  exact List.prefix_append _ _

theorem lines_of_inputs_outdented {depth : Nat} {behind : List Char} (kind : Kind) (position : Nat)
    (inputs : List Unfolding) (ends : Outdented depth behind) :
    Outdented (depth + 1) (linesOfInputs depth kind position inputs ++ behind) := by
  cases inputs with
  | nil => exact ends.deeper
  | cons input inputs =>
      rw [linesOfInputs, List.append_assoc]
      exact line_outdented (label_solid kind position) input _

mutual

theorem lines_cancel {first second : Unfolding} {depth : Nat} {behind beyond : List Char}
    (legible : first.Legible) (otherLegible : second.Legible) (label : String)
    (ends : Outdented (depth + 1) behind) (otherEnds : Outdented (depth + 1) beyond)
    (same : lines depth label first ++ behind = lines depth label second ++ beyond) :
    first = second ∧ behind = beyond := by
  match first, second with
  | node header inputs, node other others =>
      cases legible with
      | node own below =>
      cases otherLegible with
      | node otherOwn otherBelow =>
      simp only [lines, List.append_assoc, List.cons_append, List.append_cancel_left_eq] at same
      obtain ⟨rfl, inputsSame⟩ := Header.chars_cancel own otherOwn same
      obtain ⟨rfl, rest⟩ := lines_of_inputs_cancel below otherBelow header.kind 0 ends otherEnds
        inputsSame
      exact ⟨rfl, rest⟩

theorem lines_of_inputs_cancel {inputs others : List Unfolding} {depth : Nat}
    {behind beyond : List Char} (legible : ∀ input ∈ inputs, input.Legible)
    (otherLegible : ∀ input ∈ others, input.Legible) (kind : Kind) (position : Nat)
    (ends : Outdented depth behind) (otherEnds : Outdented depth beyond)
    (same : linesOfInputs depth kind position inputs ++ behind =
      linesOfInputs depth kind position others ++ beyond) :
    inputs = others ∧ behind = beyond := by
  match inputs, others with
  | [], [] => exact ⟨rfl, same⟩
  | [], other :: others =>
      rw [linesOfInputs, linesOfInputs, List.nil_append, List.append_assoc] at same
      exact absurd (same ▸ indented_line _ other _) ends
  | input :: inputs, [] =>
      rw [linesOfInputs, linesOfInputs, List.nil_append, List.append_assoc] at same
      exact absurd (same ▸ indented_line _ input _) otherEnds
  | input :: inputs, other :: others =>
      simp only [linesOfInputs, List.append_assoc] at same
      rw [List.forall_mem_cons] at legible otherLegible
      obtain ⟨rfl, inputsSame⟩ := lines_cancel legible.1 otherLegible.1 _
        (lines_of_inputs_outdented kind (position + 1) inputs ends)
        (lines_of_inputs_outdented kind (position + 1) others otherEnds) same
      obtain ⟨rfl, rest⟩ := lines_of_inputs_cancel legible.2 otherLegible.2 kind (position + 1) ends
        otherEnds inputsSame
      exact ⟨rfl, rest⟩

end

end Unfolding

namespace Image

theorem heading_chars (store : Store) (image : Image) :
    (image.heading store).toList = (image.header store).chars := by
  unfold heading Header.chars Header.resolutionChars Header.modeChars header
  simp only [String.toList_append, List.append_assoc]
  congr 2
  · cases image.resolution? <;> simp
  · rcases image.value? store "mode" with _ | value
    · rfl
    · cases value <;> simp [Text.dotted]

theorem outline_line_chars (depth : Nat) (label heading : String) :
    (outlineLine depth label heading).toList =
      List.replicate (2 * depth) ' ' ++ (label.toList ++ (heading.toList ++ ['\n'])) := by
  simp [outlineLine]

mutual

theorem outline_at_chars (store : Store) (depth : Nat) (label : String) (image : Image) :
    (outlineAt store depth label image).toList = (image.unfold store).lines depth label := by
  match image with
  | generator home kind resolution =>
      simp [outlineAt, outline_line_chars, heading_chars, unfold, Unfolding.lines,
        Unfolding.linesOfInputs]
  | filter home kind input =>
      have below := outline_at_chars store (depth + 1) "" input
      simp [outlineAt, outline_line_chars, heading_chars, unfold, Unfolding.lines,
        Unfolding.linesOfInputs, header, Image.kind, Kind.label, below]
  | merger home kind first second =>
      have left := outline_at_chars store (depth + 1) "a: " first
      have right := outline_at_chars store (depth + 1) "b: " second
      simp [outlineAt, outline_line_chars, heading_chars, unfold, Unfolding.lines,
        Unfolding.linesOfInputs, header, Image.kind, Kind.label, left, right]
  | collage home kind first others =>
      have left : (outlineAt store (depth + 1) "0: " first).toList =
          (first.unfold store).lines (depth + 1) ((Kind.collage kind).label 0) :=
        outline_at_chars store (depth + 1) "0: " first
      have right := outline_others_chars store (depth + 1) kind 1 others
      simp [outlineAt, outline_line_chars, heading_chars, unfold, Unfolding.lines,
        Unfolding.linesOfInputs, header, Image.kind, left, right]

theorem outline_others_chars (store : Store) (depth : Nat) (kind : Collage) (position : Nat)
    (images : List Image) :
    (outlineOthers store depth position images).toList =
      Unfolding.linesOfInputs depth (.collage kind) position (unfoldAll store images) := by
  match images with
  | [] => simp [outlineOthers, unfoldAll, Unfolding.linesOfInputs]
  | image :: images =>
      have head := outline_at_chars store depth (Nat.repr position ++ ": ") image
      have tail := outline_others_chars store depth kind (position + 1) images
      simp [outlineOthers, unfoldAll, Unfolding.linesOfInputs, Kind.label, head, tail]

end

theorem header_legible {store : Store} {image : Image}
    (fit : Settings.Fit image.kind.properties (image.settings store)) :
    (image.header store).Legible := by
  cases present : image.value? store "mode" with
  | none =>
      rw [header, present]
      cases image with
      | generator home kind resolution => exact .generator kind resolution
      | filter home kind input => exact .plain nofun
      | merger home kind first second => exact .plain nofun
      | collage home kind first others => exact .plain nofun
  | some value =>
      obtain ⟨declared, found, fits⟩ := Settings.declared_of_fit fit present
      obtain ⟨isChoice, other⟩ := Kind.mode_declared found
      rw [isChoice] at fits
      cases value with
      | choice mode =>
          have unsized : image.resolution? = none := by
            cases image with
            | generator home kind resolution => exact absurd rfl (other kind)
            | filter home kind input => rfl
            | merger home kind first second => rfl
            | collage home kind first others => rfl
          rw [header, present, unsized]
          exact .blending other (List.contains_iff_mem.1 fits)
      | _ => cases fits

theorem unfold_legible {store : Store} {image : Image}
    (fit : ∀ part ∈ image.parts, Settings.Fit part.kind.properties (part.settings store)) :
    (image.unfold store).Legible := by
  induction image using of_inputs with
  | step image induction =>
      rw [unfold_eq]
      refine .node (header_legible (fit image image.self_mem_parts)) ?_
      intro below isBelow
      obtain ⟨input, isInput, rfl⟩ := List.mem_map.1 isBelow
      exact induction input isInput fun part within =>
        fit part ((mem_parts_iff part image).2 (.inr ⟨input, isInput, within⟩))

/-- Two images whose settings fit have the same outline exactly if they unfold into the same tree: their
kinds, resolutions and blend modes are the same, and so are those of their inputs, one by one and in
order. They may be kept in different stores. -/
theorem outline_eq_iff {store other : Store} {first second : Image}
    (fit : ∀ part ∈ first.parts, Settings.Fit part.kind.properties (part.settings store))
    (otherFit : ∀ part ∈ second.parts, Settings.Fit part.kind.properties (part.settings other)) :
    outline store first = outline other second ↔ first.unfold store = second.unfold other := by
  rw [← String.toList_inj, outline, outline, outline_at_chars, outline_at_chars]
  constructor
  · intro same
    have ends := Unfolding.outdented_end 0
    have texts := congrArg (· ++ []) same
    exact (Unfolding.lines_cancel (unfold_legible fit) (unfold_legible otherFit) "" ends ends texts).1
  · intro same
    rw [same]

/-- A stored sum has the outline of the loose one that it was, and a product has another. -/
theorem outlines_of_blends :
    let noise := ofGenerator .noise (.square 64)
    let sum := ofMerger .blend noise (ofFilter .blur noise)
    let product := sum.withValue "mode" (.choice "multiply")
    let stored := (sum.settle #[]).1
    let store := (sum.settle #[]).2
    (∀ part ∈ sum.parts, Settings.Fit part.kind.properties (part.settings #[])) ∧
    (∀ part ∈ product.parts, Settings.Fit part.kind.properties (part.settings #[])) ∧
    (∀ part ∈ stored.parts, Settings.Fit part.kind.properties (part.settings store)) ∧
    outline #[] product = "blend .multiply\n  a: noise 64x64\n  b: blur\n    noise 64x64\n" ∧
    stored.unfold store = sum.unfold #[] ∧ product.unfold #[] ≠ sum.unfold #[] := by
  intro noise sum product stored store
  have sumFits : ∀ part ∈ sum.parts, Settings.Fit part.kind.properties (part.settings #[]) := by
    unfold Settings.Fit
    decide +kernel
  have productFits : ∀ part ∈ product.parts,
      Settings.Fit part.kind.properties (part.settings #[]) := by
    unfold Settings.Fit
    decide +kernel
  have storedFits : ∀ part ∈ stored.parts,
      Settings.Fit part.kind.properties (part.settings store) := by
    unfold Settings.Fit
    decide +kernel
  refine ⟨sumFits, productFits, storedFits, by decide +kernel, ?_, ?_⟩
  · exact (outline_eq_iff storedFits sumFits).1 (by decide +kernel)
  · exact (outline_eq_iff productFits sumFits).not.1 (by decide +kernel)

end Image

end ImageGraph
