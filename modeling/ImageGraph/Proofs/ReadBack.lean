import ImageGraph.Proofs.Settings
import ImageGraph.Proofs.Trimming
import ImageGraph.Proofs.Written
import ImageGraph.Session

/-!
Values that are read back. A property reads the text of each of its finite values as that value. A
whole number is read by way of a double, which is exact for those that come from doubles.
-/

set_option autoImplicit false

namespace ImageGraph

open Number (Spells)
open Expr.Token (isWordChar)

theorem Expr.Readable.evaluates {chars : List Char} {expression : Expr}
    (readable : Readable chars (Part.IsWhole expression)) (scope : Scope) :
    ∃ result, ImageGraph.parse (.ofList chars) = .ok result ∧
      evaluate scope result = evaluate scope expression := by
  obtain ⟨result, parsed, same⟩ := readable.parse
  refine ⟨result, parsed, ?_⟩
  rw [← evaluate_bare, same, evaluate_bare]

namespace Number.Spells

variable {chars : List Char} {x : Float}

theorem readable (spells : Spells chars x) :
    ∃ expression, Expr.Readable chars (Expr.Part.IsWhole expression) ∧
      evaluate .numeric expression = .ok (.number x) := by
  obtain ⟨negative, numeral, rfl, rfl⟩ := spells
  have plain : Expr.Readable numeral.chars
      (Expr.Part.IsPrimary (.number numeral.decimal.toFloat Expr.nowhere)) :=
    .atom (Expr.numeral_spelled numeral) rfl fun place => ⟨_, .atom rfl, rfl⟩
  cases negative with
  | false => exact ⟨_, plain.whole, by rw [evaluate]; rfl⟩
  | true => exact ⟨_, plain.negation Expr.nowhere, by rw [evaluate, evaluate]; rfl⟩

theorem number_read {text : String} (spells : Spells text.toList x) :
    evaluateNumber text = .ok x := by
  obtain ⟨expression, readable, value⟩ := spells.readable
  obtain ⟨result, parsed, same⟩ := readable.evaluates .numeric
  rw [String.ofList_toList] at parsed
  simp only [evaluateNumber, parsed, same, value, bind, Except.bind, Value.asNumber, Value.number?]

theorem begun (spells : Spells chars x) : chars ≠ [] := by
  obtain ⟨negative, numeral, rfl, -⟩ := spells
  cases negative with
  | false => exact List.append_ne_nil_of_left_ne_nil numeral.begun _
  | true => exact List.cons_ne_nil _ _

theorem solid (spells : Spells chars x) : ∀ char ∈ chars, Expr.isSolid char = true := by
  obtain ⟨negative, numeral, rfl, -⟩ := spells
  have digits := Expr.solid_of_spelling (Expr.numeral_spelled numeral)
  cases negative with
  | false => exact digits
  | true =>
      intro char member
      rcases List.mem_cons.1 member with rfl | later
      · decide
      · exact digits char later

end Number.Spells

theorem array_read {numbers : List Float} (finite : ∀ x ∈ numbers, Number.isFinite x = true) :
    evaluateArray (Text.bracketed numbers) = .ok numbers := by
  have each : ∃ items,
      List.Forall₂ (fun text item => Expr.Readable text (Expr.Part.IsWhole item))
        (numbers.map fun x => (Number.text x).toList) items ∧
        evaluateNumbers .numeric .arrayItem items = .ok numbers := by
    induction numbers with
    | nil => exact ⟨[], .nil, by rw [evaluateNumbers]⟩
    | cons x numbers induction =>
        obtain ⟨items, readable, values⟩ :=
          induction fun other member => finite other (List.mem_cons_of_mem _ member)
        obtain ⟨item, itemReadable, value⟩ :=
          (Number.text_spells (finite x List.mem_cons_self)).readable
        exact ⟨item :: items, .cons itemReadable readable, by
          rw [evaluateNumbers, value, values]
          rfl⟩
  obtain ⟨items, readable, values⟩ := each
  obtain ⟨result, parsed, same⟩ :=
    ((Expr.Readable.items Expr.space_gap readable).array Expr.nowhere).whole.evaluates .numeric
  have chars : (Text.bracketed numbers).toList =
      '[' ::
        (List.intercalate [',', ' '] (numbers.map fun x => (Number.text x).toList) ++ [']']) := by
    simp [Text.bracketed, String.toList_intercalate, Function.comp_def]
  rw [← chars, String.ofList_toList] at parsed
  simp only [evaluateArray, parsed, same, evaluate, values, bind, Except.bind, pure, Except.pure]

theorem solid_snug {chars : List Char} (begun : chars ≠ [])
    (solid : ∀ char ∈ chars, Expr.isSolid char = true) : Text.Snug chars :=
  .of_solid begun fun char member => Expr.not_blank_of_solid (solid char member)

theorem bracketed_snug (numbers : List Float) : Text.Snug (Text.bracketed numbers).toList := by
  have opening : Text.Snug ['['] := solid_snug (by simp) (List.all_eq_true.1 rfl)
  have closing : Text.Snug [']'] := solid_snug (by simp) (List.all_eq_true.1 rfl)
  rw [Text.bracketed, String.toList_append, String.toList_append, List.append_assoc]
  exact opening.append _ closing

theorem shape_read {property : String} {shape : Shape} {numbers : List Float}
    {value : Property.Value} (makes : shape.value? numbers = some value)
    (finite : ∀ x ∈ numbers, Number.isFinite x = true) :
    readShape property shape (Text.bracketed numbers) = .ok (.store value) := by
  simp only [readShape, array_read finite, bind, Except.bind, makes, pure, Except.pure]

namespace Property

def Kind.cases : Kind → List String
  | .choice cases => cases
  | _ => []

namespace Value

def floats : Value → List Float
  | float number => [number]
  | point x y => [x, y]
  | size width height => [width, height]
  | rect x y width height => [x, y, width, height]
  | color shade => shade.channels
  | int _ | bool _ | choice _ => []

def IsFinite (value : Value) : Prop := ∀ x ∈ value.floats, Number.isFinite x = true

end Value

end Property

theorem identifier_chars {name : String} (identifier : isIdentifier name = true) :
    name.toList ≠ [] ∧ ∀ char ∈ name.toList, isWordChar char = true := by
  unfold isIdentifier at identifier
  split at identifier
  · cases identifier
  · rename_i first rest chars
    obtain ⟨start, others⟩ := Bool.and_eq_true_iff.1 identifier
    rw [chars, List.forall_mem_cons]
    refine ⟨List.cons_ne_nil first rest, ?_, List.all_eq_true.1 others⟩
    rcases Bool.or_eq_true_iff.1 start with letter | line
    · simp [isWordChar, Char.isAlphanum, letter]
    · simp [isWordChar, line]

theorem identifier_solid {name : String} (identifier : isIdentifier name = true) :
    ∀ char ∈ name.toList, Expr.isSolid char = true := fun char member =>
  Expr.solid_of_height (Expr.Token.height_of_word ((identifier_chars identifier).2 char member))

theorem Kind.name_identifier (kind : Kind) : isIdentifier kind.name = true := by
  rcases kind with source | effect | combination | arrangement
  · cases source <;> decide
  · cases effect <;> decide
  · cases combination <;> decide
  · cases arrangement <;> decide

theorem text_snug {value : Property.Value} {kind : Property.Kind} (fits : value.fits kind = true)
    (named : ∀ name ∈ kind.cases, isIdentifier name = true) (finite : value.IsFinite) :
    Text.Snug value.text.toList := by
  unfold Property.Value.fits at fits
  split at fits
  case h_1 number =>
    have spells := Number.text_spells (finite number List.mem_cons_self)
    exact solid_snug spells.begun spells.solid
  case h_2 whole =>
    have spells := Number.repr_spells whole
    exact solid_snug spells.begun spells.solid
  case h_3 flag =>
    cases flag with
    | true => exact solid_snug (by decide) (List.all_eq_true.1 (by decide))
    | false => exact solid_snug (by decide) (List.all_eq_true.1 (by decide))
  case h_8 chosen cases =>
    have identifier := named chosen (List.contains_iff_mem.1 fits)
    rw [Property.Value.text, Text.dotted, String.toList_append]
    apply solid_snug (by simp)
    intro char member
    rcases List.mem_append.1 member with dot | later
    · obtain rfl := List.mem_singleton.1 dot
      decide
    · exact identifier_solid identifier char later
  case h_9 => cases fits
  all_goals exact bracketed_snug _

theorem dotted_chars (name : String) : (Text.dotted name).toList = '.' :: name.toList := by
  rw [Text.dotted, String.toList_append]
  rfl

theorem choice_behind_dot {property chosen : String} {cases : List String}
    (begun : chosen.toList ≠ []) :
    readChoice property cases (Text.dotted chosen) =
      if chosen ∈ cases then .ok (.store (.choice chosen)) else .error (.caseNotFound chosen cases) := by
  obtain ⟨first, rest, chars⟩ := List.exists_cons_of_ne_nil begun
  unfold readChoice
  rw [dotted_chars, chars]
  simp only
  rw [← chars, String.ofList_toList]
  simp only [List.contains_iff_mem]

theorem choice_read {property chosen : String} {cases : List String} (listed : chosen ∈ cases)
    (begun : chosen.toList ≠ []) :
    readChoice property cases (Text.dotted chosen) = .ok (.store (.choice chosen)) := by
  rw [choice_behind_dot begun, if_pos listed]

theorem request_read {property : Property} {value : Property.Value}
    (fits : value.fits property.kind = true)
    (named : ∀ name ∈ property.kind.cases, isIdentifier name = true) (finite : value.IsFinite)
    (attained : value.Attained) : readRequest property value.text = .ok (.store value) := by
  have snug := text_snug fits named finite
  obtain ⟨name, kind, initial⟩ := property
  simp only at fits named
  simp only [readRequest, snug.trim]
  unfold Property.Value.fits at fits
  split at fits
  case h_1 number =>
    have spells := Number.text_spells (finite number List.mem_cons_self)
    simp only [Property.Value.text, spells.number_read, Except.map]
  case h_2 whole =>
    obtain ⟨x, rfl⟩ := attained whole rfl
    have truncates := Number.truncation_of_truncate x
    rw [Number.IsTruncation] at truncates
    simp only [Property.Value.text, (Number.repr_spells _).number_read, Except.map, truncates]
  case h_3 flag =>
    cases flag with
    | true => simp [Property.Value.text, readFlag, Except.map]
    | false => simp [Property.Value.text, readFlag, Except.map]
  case h_4 x y => exact @shape_read _ _ [x, y] _ rfl finite
  case h_5 width height => exact @shape_read _ _ [width, height] _ rfl finite
  case h_6 x y width height => exact @shape_read _ _ [x, y, width, height] _ rfl finite
  case h_7 shade => exact @shape_read _ _ shade.channels _ rfl finite
  case h_8 chosen cases =>
    have listed := List.contains_iff_mem.1 fits
    exact choice_read listed (identifier_chars (named chosen listed)).1
  case h_9 => cases fits

end ImageGraph
