import ImageGraph.Expr.Token
import Mathlib.Data.List.TakeWhile

/-!
Where tokens end. An operand ends in front of every character that is in no number and in no word,
and an operator in front of every character that does not make a longer symbol of it. Blanks,
brackets and commas are in no longer token, so what is read in front of them does not depend on
them.
-/

set_option autoImplicit false

namespace ImageGraph.Expr.Token

/-- Characters that no longer token contains. -/
def stops : List Char := [' ', '\t', '(', ')', '[', ']', ',']

/-- A text that does not go on with the token in front of it. -/
def Stops (behind : List Char) : Prop := ∀ char ∈ behind.head?, char ∈ stops

/-- A text that does not go on with a character of a class. -/
def Leaves (keep : Char → Bool) (behind : List Char) : Prop :=
  ∀ char ∈ behind.head?, keep char = false

variable {behind : List Char}

theorem Stops.leaves (stopped : Stops behind) {keep : Char → Bool}
    (all : stops.all (fun char => !keep char) = true) : Leaves keep behind := by
  intro char member
  simpa using List.all_eq_true.1 all char (stopped char member)

theorem Leaves.mono {keep other : Char → Bool} (leaves : Leaves keep behind)
    (wider : ∀ char, other char = true → keep char = true) : Leaves other behind := by
  intro char member
  rw [Bool.eq_false_iff]
  intro kept
  exact absurd ((leaves char member).symm.trans (wider char kept)) (by decide)

theorem height_of_digit {char : Char} (digit : char.isDigit = true) : isHeightChar char = true := by
  simp [isHeightChar, Char.isAlphanum, digit]

theorem height_of_word {char : Char} (kept : isWordChar char = true) :
    isHeightChar char = true := by
  rcases Bool.or_eq_true_iff.1 kept with letter | line
  · simp [isHeightChar, letter]
  · simp [isHeightChar, line]

theorem height_of_width {char : Char} (kept : isWidthChar char = true) :
    isHeightChar char = true := by
  have kept := (Bool.and_eq_true_iff.1 kept).2
  rcases Bool.or_eq_true_iff.1 kept with letter | point
  · simp [isHeightChar, letter]
  · simp [isHeightChar, point]

namespace Leaves

variable {keep : Char → Bool}

theorem drop (leaves : Leaves keep behind) : behind.dropWhile keep = behind := by
  cases behind with
  | nil => rfl
  | cons char behind => simp [leaves char rfl]

theorem take (leaves : Leaves keep behind) : behind.takeWhile keep = [] := by
  cases behind with
  | nil => rfl
  | cons char behind => simp [leaves char rfl]

theorem drop_append (leaves : Leaves keep behind) (chars : List Char) :
    (chars ++ behind).dropWhile keep = chars.dropWhile keep ++ behind := by
  rw [List.dropWhile_append]
  split
  · rename_i none
    rw [leaves.drop, List.isEmpty_iff.1 none, List.nil_append]
  · rfl

theorem take_append (leaves : Leaves keep behind) (chars : List Char) :
    (chars ++ behind).takeWhile keep = chars.takeWhile keep := by
  induction chars with
  | nil => exact leaves.take
  | cons char chars induction => simp only [List.cons_append, List.takeWhile_cons, induction]

theorem any_append (leaves : Leaves keep behind) (chars : List Char) :
    (chars ++ behind).head?.any keep = chars.head?.any keep := by
  cases chars with
  | nil =>
      cases behind with
      | nil => rfl
      | cons char behind => simp [leaves char rfl]
  | cons char chars => rfl

end Leaves

/-- A reading with more text behind what it leaves. -/
def withMore (behind : List Char) (reading : Reading) : Reading := (reading.1, reading.2 ++ behind)

section Operands

variable (ends : Leaves isHeightChar behind)

include ends

theorem resolution_append (chars : List Char) :
    resolution? (chars ++ behind) = (resolution? chars).map (withMore behind) := by
  have noX : ∀ more, behind ≠ 'x' :: more := by
    rintro more rfl
    exact absurd (ends 'x' rfl) (by decide)
  have widthEnds := ends.mono fun _ => height_of_width
  unfold resolution?
  rw [widthEnds.drop_append, widthEnds.take_append]
  cases chars.dropWhile isWidthChar with
  | nil =>
      rw [List.nil_append]
      split
      · exact (noX _ rfl).elim
      · rfl
  | cons char more =>
      rw [List.cons_append]
      by_cases separator : char = 'x'
      · subst separator
        simp only [Option.map_some, withMore, ends.drop_append, ends.take_append]
      · simp [separator]

theorem label_append (chars : List Char) :
    label? (chars ++ behind) = (label? chars).map (withMore behind) := by
  have digitsEnd := ends.mono fun _ => height_of_digit
  have wordEnds := ends.mono fun _ => height_of_word
  unfold label?
  rw [digitsEnd.drop_append, digitsEnd.take_append]
  cases chars.dropWhile Char.isDigit with
  | nil =>
      rw [List.nil_append]
      cases behind with
      | nil => rfl
      | cons char behind =>
          have noFinal : (char == 'p' || char == 'k') = false := by
            rw [Bool.eq_false_iff]
            intro isFinal
            have kept := ends char rfl
            rcases Bool.or_eq_true_iff.1 isFinal with isP | isK
            · rw [beq_iff_eq.1 isP] at kept
              exact absurd kept (by decide)
            · rw [beq_iff_eq.1 isK] at kept
              exact absurd kept (by decide)
          simp [noFinal]
  | cons final more =>
      rw [List.cons_append]
      simp only [wordEnds.any_append]
      split
      · rfl
      · rfl

theorem number_append (chars : List Char) :
    number? (chars ++ behind) = withMore behind (number? chars) := by
  have noPoint : ∀ more, behind ≠ '.' :: more := by
    rintro more rfl
    exact absurd (ends '.' rfl) (by decide)
  have digitsEnd := ends.mono fun _ => height_of_digit
  unfold number?
  rw [digitsEnd.drop_append, digitsEnd.take_append]
  cases chars.dropWhile Char.isDigit with
  | nil =>
      rw [List.nil_append]
      split
      · exact (noPoint _ rfl).elim
      · rfl
  | cons char more =>
      rw [List.cons_append]
      by_cases point : char = '.'
      · subst point
        simp only [withMore, digitsEnd.drop_append, digitsEnd.take_append]
      · simp [point, withMore]

theorem digit_led_append (chars : List Char) :
    digitLed (chars ++ behind) = withMore behind (digitLed chars) := by
  unfold digitLed
  rw [resolution_append ends, label_append ends, number_append ends]
  cases resolution? chars with
  | some reading => rfl
  | none => cases label? chars <;> rfl

theorem operand_append (first : Char) (rest : List Char) :
    operand? first (rest ++ behind) = (operand? first rest).map (withMore behind) := by
  have digitsEnd := ends.mono fun _ => height_of_digit
  have wordEnds := ends.mono fun _ => height_of_word
  unfold operand?
  rw [← List.cons_append, digit_led_append ends, wordEnds.drop_append, wordEnds.take_append,
    digitsEnd.drop_append, digitsEnd.take_append, digitsEnd.any_append]
  split
  · rfl
  · split
    · rfl
    · split
      · rfl
      · split <;> rfl

theorem read_operand_append (first : Char) (rest : List Char) :
    read? false first (rest ++ behind) = (read? false first rest).map (withMore behind) := by
  unfold read?
  split
  · rfl
  · exact operand_append ends first rest

end Operands

/-- Whether a character behind the symbol of an operator makes a longer symbol of it. -/
def extended (operator : Operator) (char : Char) : Bool :=
  Operator.all.any fun longer =>
    (operator.symbol.toList ++ [char]).isPrefixOf longer.symbol.toList

theorem prefix_append {longer : List Char} {chars : List Char}
    (ends : ∀ char ∈ behind.head?, ¬chars ++ [char] <+: longer) :
    longer.isPrefixOf (chars ++ behind) = longer.isPrefixOf chars := by
  rw [Bool.eq_iff_iff, List.isPrefixOf_iff_prefix, List.isPrefixOf_iff_prefix]
  refine ⟨fun fits => ?_, fun fits => fits.trans (List.prefix_append _ _)⟩
  rcases List.prefix_or_prefix_of_prefix fits (List.prefix_append chars behind) with within | beyond
  · exact within
  · obtain ⟨more, rfl⟩ := beyond
    rw [List.prefix_append_right_inj] at fits
    cases more with
    | nil => simp
    | cons char more =>
        obtain ⟨left, rfl⟩ := fits
        exact absurd ⟨more, by simp⟩ (ends char rfl)

theorem operator_of_symbol {operator : Operator} (ends : Leaves (extended operator) behind) :
    operator? (operator.symbol.toList ++ behind) = some (.operator operator, behind) := by
  have same : (fun longer : Operator =>
      longer.symbol.toList.isPrefixOf (operator.symbol.toList ++ behind)) =
        fun longer => longer.symbol.toList.isPrefixOf operator.symbol.toList := by
    funext longer
    apply prefix_append
    intro char member fits
    have listed : extended operator char = true :=
      List.any_eq_true.2 ⟨longer, longer.mem_all, List.isPrefixOf_iff_prefix.2 fits⟩
    exact absurd (listed.symm.trans (ends char member)) (by decide)
  have found : (Operator.all.find? fun longer =>
      longer.symbol.toList.isPrefixOf operator.symbol.toList) = some operator := by
    rcases operator with mode | _
    · cases mode <;> rfl
    · rfl
  unfold operator?
  rw [same, found, Option.map_some, ← String.length_toList, List.drop_left]

theorem operator_append (stopped : Stops behind) (chars : List Char) :
    operator? (chars ++ behind) = (operator? chars).map (withMore behind) := by
  have apart (operator : Operator) : Leaves operator.symbol.toList.contains behind := by
    rcases operator with mode | _
    · cases mode <;> exact stopped.leaves (by decide)
    · exact stopped.leaves (by decide)
  have same : (fun operator : Operator => operator.symbol.toList.isPrefixOf (chars ++ behind)) =
      fun operator => operator.symbol.toList.isPrefixOf chars := by
    funext operator
    apply prefix_append
    intro char member fits
    have inside : char ∈ operator.symbol.toList := fits.subset (by simp)
    have outside := apart operator char member
    simp [inside] at outside
  unfold operator?
  rw [same]
  cases found : Operator.all.find? fun operator => operator.symbol.toList.isPrefixOf chars with
  | none => rfl
  | some operator =>
      have fits : operator.symbol.toList.isPrefixOf chars = true := by
        simpa using List.find?_some found
      have fits := (List.isPrefixOf_iff_prefix.1 fits).length_le
      rw [String.length_toList] at fits
      simp [withMore, List.drop_append_of_le_length fits]

/-- What is read does not depend on a text that does not go on with it. -/
theorem read_append (stopped : Stops behind) (afterOperand : Bool) (first : Char)
    (rest : List Char) :
    read? afterOperand first (rest ++ behind) =
      (read? afterOperand first rest).map (withMore behind) := by
  cases afterOperand with
  | false => exact read_operand_append (stopped.leaves (by decide)) first rest
  | true =>
      unfold read?
      split
      · rfl
      · exact operator_append stopped (first :: rest)

end ImageGraph.Expr.Token
