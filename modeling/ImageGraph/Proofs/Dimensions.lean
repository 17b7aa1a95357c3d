import ImageGraph.Proofs.Numerals
import ImageGraph.Proofs.Outlines
import ImageGraph.Proofs.Trimming

/-!
Texts of resolutions. Which texts are read as a resolution, and as which one, is told by the form of the
text alone, and for every other text it is told which part of it is at fault. The text that is written for
a resolution is read back.
-/

set_option autoImplicit false

namespace ImageGraph.Resolution

/-- Digits, behind a plus sign or alone, that stand for a number of 32 bits other than zero. -/
structure Numeral (text : String) (number : Nat) : Prop where
  written : ∃ digits, (text.toList = digits ∨ text.toList = '+' :: digits) ∧ digits ≠ [] ∧
    (∀ char ∈ digits, char.isDigit = true) ∧ Number.readDigits digits = number
  positive : 0 < number
  small : number < 2 ^ 32

/-- What a text without blanks at its ends stands for: a standard name, two numerals around the first
`x`, or one numeral for both sides. Of two halves at fault the width is blamed. -/
inductive Means : String → Except Fault Resolution → Prop where
  | name {name : String} {resolution : Resolution} (listed : (name, resolution) ∈ standard) :
      Means name (.ok resolution)
  | halves {left right : String} {width height : Nat} (first : 'x' ∉ left.toList)
      (columns : Numeral left width) (rows : Numeral right height) :
      Means (left ++ "x" ++ right) (.ok ⟨width, height⟩)
  | side {text : String} {number : Nat} (numeral : Numeral text number) :
      Means text (.ok (square number))
  | faultyWidth {left : String} (right : String) (first : 'x' ∉ left.toList)
      (fault : ∀ number, ¬Numeral left number) :
      Means (left ++ "x" ++ right) (.error ⟨.width, left⟩)
  | faultyHeight {left right : String} {width : Nat} (first : 'x' ∉ left.toList)
      (columns : Numeral left width) (fault : ∀ number, ¬Numeral right number) :
      Means (left ++ "x" ++ right) (.error ⟨.height, right⟩)
  | faultySide {text : String} (uncut : 'x' ∉ text.toList) (unlisted : named? text = none)
      (fault : ∀ number, ¬Numeral text number) : Means text (.error ⟨.side, text⟩)

section Numerals

variable {text : String} {number : Nat}

theorem is_side_iff (number : Nat) : isSide number = true ↔ 0 < number ∧ number < 2 ^ 32 := by
  rw [isSide, Bool.and_eq_true, decide_eq_true_iff, decide_eq_true_iff]
  exact and_congr_right fun _ => Nat.lt_succ_iff.symm

/-- A text without the plus sign that it may begin with. -/
def unsigned : List Char → List Char
  | '+' :: rest => rest
  | chars => chars

theorem unsigned_cases (chars : List Char) :
    chars = unsigned chars ∨ chars = '+' :: unsigned chars := by
  unfold unsigned
  split
  · exact .inr rfl
  · exact .inl rfl

theorem unsigned_of_digits {chars digits : List Char}
    (written : chars = digits ∨ chars = '+' :: digits)
    (isDigits : ∀ char ∈ digits, char.isDigit = true) : unsigned chars = digits := by
  rcases written with rfl | rfl
  · unfold unsigned
    split
    · exact absurd (isDigits '+' List.mem_cons_self) (by decide)
    · rfl
  · rfl

theorem numeral_eq_some (chars : List Char) (number : Nat) :
    numeral? chars = some number ↔ unsigned chars ≠ [] ∧
      (∀ char ∈ unsigned chars, char.isDigit = true) ∧
        Number.readDigits (unsigned chars) = number := by
  have same : numeral? chars =
      if (unsigned chars).isEmpty || !(unsigned chars).all Char.isDigit then none
      else some (Number.readDigits (unsigned chars)) := by
    cases chars with
    | nil => rfl
    | cons first rest =>
        by_cases plus : first = '+'
        · subst plus
          rfl
        · simp [numeral?, unsigned, plus]
  rw [same]
  split
  · rename_i refused
    refine iff_of_false (by simp) ?_
    rintro ⟨begun, isDigits, -⟩
    simp [begun, List.all_eq_true.2 isDigits] at refused
  · rename_i accepted
    simp only [Bool.or_eq_true, List.isEmpty_iff, Bool.not_eq_true', not_or,
      Bool.not_eq_false] at accepted
    rw [Option.some_inj]
    exact ⟨fun value => ⟨accepted.1, List.all_eq_true.1 accepted.2, value⟩, fun all => all.2.2⟩

theorem Numeral.read (numeral : Numeral text number) : numeral? text.toList = some number := by
  obtain ⟨digits, written, isDigits⟩ := numeral.written
  rw [numeral_eq_some, unsigned_of_digits written isDigits.2.1]
  exact isDigits

theorem dimension_ok_iff (part : Part) (text : String) (number : Nat) :
    dimension part text = .ok number ↔ Numeral text number := by
  have same : dimension part text = .ok number ↔
      (numeral? text.toList).filter isSide = some number := by
    unfold dimension
    cases (numeral? text.toList).filter isSide <;> simp
  rw [same, Option.filter_eq_some_iff, is_side_iff]
  constructor
  · rintro ⟨read, positive, small⟩
    exact ⟨⟨_, unsigned_cases _, (numeral_eq_some _ _).1 read⟩, positive, small⟩
  · intro numeral
    exact ⟨numeral.read, numeral.positive, numeral.small⟩

theorem dimension_error (part : Part) (fault : ∀ number, ¬Numeral text number) :
    dimension part text = .error ⟨part, text⟩ := by
  cases read : dimension part text with
  | ok number => exact absurd ((dimension_ok_iff part text number).1 read) (fault number)
  | error other =>
      unfold dimension at read
      split at read
      · cases read
      · exact read.symm

theorem Numeral.uncrossed (numeral : Numeral text number) : 'x' ∉ text.toList := by
  obtain ⟨⟨digits, written, -, isDigits, -⟩, -, -⟩ := numeral
  have notDigit : 'x' ∉ digits := fun member => absurd (isDigits 'x' member) (by decide)
  rcases written with same | same
  · rwa [same]
  · rw [same, List.mem_cons]
    exact not_or.2 ⟨by decide, notDigit⟩

theorem numeral_repr (positive : 0 < number) (small : number < 2 ^ 32) :
    Numeral (Nat.repr number) number where
  written := ⟨_, .inl rfl, (Number.Numeral.ofNat number).begun, Number.is_digit_of_repr number,
    Number.read_digits_repr number⟩
  positive := positive
  small := small

end Numerals

section Readings

variable {text left right : String} {number : Nat} {resolution : Resolution}

theorem standard_apart : ∀ entry ∈ standard,
    'x' ∉ entry.1.toList ∧ numeral? entry.1.toList = none := by
  decide

theorem named_of_listed (listed : (text, resolution) ∈ standard) : named? text = some resolution := by
  have all : ∀ entry ∈ standard, named? entry.1 = some entry.2 := by decide
  exact all _ listed

theorem listed_of_named (named : named? text = some resolution) : (text, resolution) ∈ standard := by
  obtain ⟨before, behind, listed, -⟩ := List.lookup_eq_some_iff.1 named
  rw [listed]
  exact List.mem_append_right _ List.mem_cons_self

theorem unnamed_of_read (read : numeral? text.toList = some number) : named? text = none := by
  cases named : named? text with
  | none => rfl
  | some resolution =>
      rw [(standard_apart _ (listed_of_named named)).2] at read
      cases read

theorem unnamed_of_cut (separated : 'x' ∈ text.toList) : named? text = none := by
  cases named : named? text with
  | none => rfl
  | some resolution =>
      exact absurd separated (standard_apart _ (listed_of_named named)).1

theorem cut_at_first (first : 'x' ∉ left.toList) :
    Text.cut 'x' (left ++ "x" ++ right) = some (left, right) := by
  have chars : (left ++ "x" ++ right).toList = left.toList ++ 'x' :: right.toList := by simp
  rw [Text.cut_first chars first, String.ofList_toList, String.ofList_toList]

theorem of_text_halves (first : 'x' ∉ left.toList) (trimmed : Text.trim text = left ++ "x" ++ right) :
    ofText text = ofHalves left right := by
  have separated : 'x' ∈ (left ++ "x" ++ right).toList := by simp
  rw [ofText, trimmed]
  simp only [unnamed_of_cut separated, cut_at_first first]

theorem of_text_side (trimmed : Text.trim text = left) (unnamed : named? left = none)
    (uncut : Text.cut 'x' left = none) : ofText text = (dimension .side left).map square := by
  rw [ofText, trimmed]
  simp only [unnamed, uncut]

theorem of_means {result : Except Fault Resolution} (means : Means (Text.trim text) result) :
    ofText text = result := by
  generalize trimmed : Text.trim text = inside at means
  cases means with
  | name listed =>
      rw [ofText, trimmed]
      simp only [named_of_listed listed]
  | halves first columns rows =>
      rw [of_text_halves first trimmed, ofHalves, (dimension_ok_iff _ _ _).2 columns,
        (dimension_ok_iff _ _ _).2 rows]
      rfl
  | side numeral =>
      rw [of_text_side trimmed (unnamed_of_read numeral.read) (Text.uncut_iff.2 numeral.uncrossed),
        (dimension_ok_iff _ _ _).2 numeral]
      rfl
  | faultyWidth right first fault =>
      rw [of_text_halves first trimmed, ofHalves, dimension_error _ fault]
      rfl
  | faultyHeight first columns fault =>
      rw [of_text_halves first trimmed, ofHalves, (dimension_ok_iff _ _ _).2 columns,
        dimension_error _ fault]
      rfl
  | faultySide uncut unlisted fault =>
      rw [of_text_side trimmed unlisted (Text.uncut_iff.2 uncut), dimension_error _ fault]
      rfl

theorem means_something (text : String) : ∃ result, Means text result := by
  by_cases separated : 'x' ∈ text.toList
  · obtain ⟨before, behind, parts, first⟩ := List.eq_append_cons_of_mem separated
    have whole : text = .ofList before ++ "x" ++ .ofList behind := by
      apply String.toList_injective
      simp [parts]
    have first : 'x' ∉ (String.ofList before).toList := by rwa [String.toList_ofList]
    rw [whole]
    by_cases columns : ∃ width, Numeral (.ofList before) width
    · obtain ⟨width, columns⟩ := columns
      by_cases rows : ∃ height, Numeral (.ofList behind) height
      · obtain ⟨height, rows⟩ := rows
        exact ⟨_, .halves first columns rows⟩
      · exact ⟨_, .faultyHeight first columns (not_exists.1 rows)⟩
    · exact ⟨_, .faultyWidth _ first (not_exists.1 columns)⟩
  · cases named : named? text with
    | some resolution => exact ⟨_, .name (listed_of_named named)⟩
    | none =>
        by_cases numeral : ∃ number, Numeral text number
        · obtain ⟨number, numeral⟩ := numeral
          exact ⟨_, .side numeral⟩
        · exact ⟨_, .faultySide separated named (not_exists.1 numeral)⟩

end Readings

theorem text_trimmed (resolution : Resolution) : Text.trim resolution.text = resolution.text := by
  have solid {char : Char} (digit : char.isDigit = true) : Text.isBlank char = false :=
    Expr.not_blank_of_solid (Expr.solid_of_height (Expr.Token.height_of_digit digit))
  apply Text.Snug.trim
  rw [text_chars]
  apply Text.Snug.of_solid
  · simp
  · intro char member
    rcases List.mem_append.1 member with wide | behind
    · exact solid (Number.is_digit_of_repr _ char wide)
    · rcases List.mem_cons.1 behind with rfl | high
      · decide
      · exact solid (Number.is_digit_of_repr _ char high)

/-- A text is read as what it stands for, blanks at its ends aside, and what is written for a resolution
is read back. -/
theorem texts_read_exactly :
    (∀ text result, ofText text = result ↔ Means (Text.trim text) result) ∧
      ∀ resolution : Resolution, 0 < resolution.width → resolution.width < 2 ^ 32 →
        0 < resolution.height → resolution.height < 2 ^ 32 →
          ofText resolution.text = .ok resolution := by
  refine ⟨?_, ?_⟩
  · intro text result
    refine ⟨?_, of_means⟩
    rintro rfl
    obtain ⟨result, means⟩ := means_something (Text.trim text)
    rwa [of_means means]
  · intro resolution wide narrow high low
    have columns := numeral_repr wide narrow
    apply of_means
    rw [text_trimmed]
    exact .halves columns.uncrossed columns (numeral_repr high low)

/-- The largest side is read back, and of a height that is one greater it is told that it is at fault. -/
theorem largest_side_read :
    ofText (text ⟨4294967295, 1⟩) = .ok ⟨4294967295, 1⟩ ∧
      Means (Text.trim " +007x4294967296") (.error ⟨.height, "4294967296"⟩) := by
  obtain ⟨exactly, readBack⟩ := texts_read_exactly
  refine ⟨readBack ⟨4294967295, 1⟩ ?_ ?_ ?_ ?_, (exactly _ _).1 (by decide +kernel)⟩
  · exact Nat.succ_pos 4294967294
  · exact Nat.lt_succ_self 4294967295
  · exact Nat.one_pos
  · exact Nat.one_lt_two_pow (by decide)

end ImageGraph.Resolution
