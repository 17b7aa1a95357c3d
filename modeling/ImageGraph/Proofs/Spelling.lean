import ImageGraph.Proofs.Stops

/-!
Spellings of tokens. What is read as a token is a spelling of it, and a spelling alone is read as
its token.
-/

set_option autoImplicit false

namespace ImageGraph.Expr.Token

open Number (Decimal)

def IsDigits (chars : List Char) : Prop := chars ≠ [] ∧ ∀ char ∈ chars, char.isDigit = true

/-- How a token is written. -/
inductive Spelling : Token → List Char → Prop where
  | minus : Spelling .minus ['-']
  | operator (operator : Operator) : Spelling (.operator operator) operator.symbol.toList
  | whole {digits : List Char} (isDigits : IsDigits digits) :
      Spelling (.number (.ofText digits [])) digits
  | pointed {whole fraction : List Char} (begun : whole ≠ [] ∨ fraction ≠ [])
      (wholeDigits : ∀ char ∈ whole, char.isDigit = true)
      (fractionDigits : ∀ char ∈ fraction, char.isDigit = true) :
      Spelling (.number (.ofText whole fraction)) (whole ++ '.' :: fraction)
  | word {first : Char} {rest : List Char} (start : isWordStart first = true)
      (chars : ∀ char ∈ rest, isWordChar char = true) :
      Spelling (.word (.ofList (first :: rest))) (first :: rest)
  | label {digits : List Char} {final : Char} (isDigits : IsDigits digits)
      (isFinal : final = 'p' ∨ final = 'k') :
      Spelling (.label (.ofList (digits ++ [final]))) (digits ++ [final])
  | resolution {first : Char} {width height : List Char} (digit : first.isDigit = true)
      (widthChars : ∀ char ∈ width, isWidthChar char = true)
      (heightChars : ∀ char ∈ height, isHeightChar char = true) :
      Spelling (.resolution (.ofList (first :: width)) (.ofList height))
        (first :: width ++ 'x' :: height)
  | punctuation {char : Char} {token : Token} (isPunctuation : punctuation? char = some token) :
      Spelling token [char]

/-- Where a token can be read. -/
def suits (afterOperand : Bool) : Token → Bool
  | operator _ => afterOperand
  | minus | number _ | word _ | label _ | resolution _ _ => !afterOperand
  | openParen | closeParen | openBracket | closeBracket | comma => true

theorem is_digits_taken {first : Char} (rest : List Char) (digit : first.isDigit = true) :
    IsDigits ((first :: rest).takeWhile Char.isDigit) := by
  constructor
  · simp [digit]
  · intro char member
    exact List.mem_takeWhile_imp member

theorem resolution_spelled {first : Char} {rest behind : List Char} {token : Token}
    (digit : first.isDigit = true) (read : resolution? (first :: rest) = some (token, behind)) :
    ∃ chars, first :: rest = chars ++ behind ∧ Spelling token chars := by
  have parts := List.takeWhile_append_dropWhile (p := isWidthChar) (l := first :: rest)
  have inWidth : isWidthChar first = true := by
    have notX : first ≠ 'x' := by
      rintro rfl
      exact absurd digit (by decide)
    simp [isWidthChar, Char.isAlphanum, digit, notX]
  unfold resolution? at read
  split at read
  · rename_i more separator
    cases read
    have heights := List.takeWhile_append_dropWhile (p := isHeightChar) (l := more)
    rw [separator] at parts
    simp only [List.takeWhile_cons, inWidth, if_true] at parts ⊢
    refine ⟨_, ?_, .resolution digit (fun char member => List.mem_takeWhile_imp member)
      (fun char member => List.mem_takeWhile_imp member)⟩
    rw [List.append_assoc, List.cons_append, List.cons_append, heights]
    exact parts.symm
  · cases read

theorem label_spelled {first : Char} {rest behind : List Char} {token : Token}
    (digit : first.isDigit = true) (read : label? (first :: rest) = some (token, behind)) :
    ∃ chars, first :: rest = chars ++ behind ∧ Spelling token chars := by
  have parts := List.takeWhile_append_dropWhile (p := Char.isDigit) (l := first :: rest)
  unfold label? at read
  split at read
  · rename_i final more separator
    split at read
    · rename_i isLabel
      cases read
      simp only [Bool.and_eq_true, Bool.or_eq_true, beq_iff_eq] at isLabel
      refine ⟨_, ?_, .label (is_digits_taken rest digit) isLabel.1⟩
      rw [List.append_assoc, List.singleton_append, ← separator, parts]
    · cases read
  · cases read

theorem number_spelled {first : Char} (rest : List Char) (digit : first.isDigit = true) :
    ∃ chars, first :: rest = chars ++ (number? (first :: rest)).2 ∧
      Spelling (number? (first :: rest)).1 chars := by
  have parts := List.takeWhile_append_dropWhile (p := Char.isDigit) (l := first :: rest)
  have digits := is_digits_taken rest digit
  unfold number?
  split
  · rename_i more point
    have fractions := List.takeWhile_append_dropWhile (p := Char.isDigit) (l := more)
    refine ⟨_, ?_, .pointed (.inl digits.1) digits.2 fun char member =>
      List.mem_takeWhile_imp member⟩
    rw [List.append_assoc, List.cons_append, fractions, ← point, parts]
  · exact ⟨_, parts.symm, .whole digits⟩

theorem operator_parts {operator : Operator} {chars behind : List Char}
    (read : operator? chars = some (.operator operator, behind)) :
    chars = operator.symbol.toList ++ behind := by
  obtain ⟨candidate, found, same⟩ := Option.map_eq_some_iff.1 read
  cases same
  have fits : operator.symbol.toList.isPrefixOf chars = true := by
    simpa using List.find?_some found
  obtain ⟨more, rfl⟩ := List.isPrefixOf_iff_prefix.1 fits
  rw [← String.length_toList, List.drop_left]

theorem operator_spelled {chars behind : List Char} {token : Token}
    (read : operator? chars = some (token, behind)) :
    ∃ symbol, chars = symbol ++ behind ∧ Spelling token symbol := by
  obtain ⟨operator, -, same⟩ := Option.map_eq_some_iff.1 read
  cases same
  exact ⟨_, operator_parts read, .operator operator⟩

theorem digit_led_spelled {first : Char} {rest behind : List Char} {token : Token}
    (digit : first.isDigit = true) (read : digitLed (first :: rest) = (token, behind)) :
    ∃ chars, first :: rest = chars ++ behind ∧ Spelling token chars := by
  unfold digitLed at read
  cases asResolution : resolution? (first :: rest) with
  | some reading =>
      rw [asResolution] at read
      cases read
      exact resolution_spelled digit asResolution
  | none =>
      rw [asResolution] at read
      cases asLabel : label? (first :: rest) with
      | some reading =>
          rw [asLabel] at read
          cases read
          exact label_spelled digit asLabel
      | none =>
          rw [asLabel] at read
          have spelled := number_spelled rest digit
          change number? (first :: rest) = _ at read
          rwa [read] at spelled

theorem operand_spelled {first : Char} {rest behind : List Char} {token : Token}
    (read : operand? first rest = some (token, behind)) :
    ∃ chars, first :: rest = chars ++ behind ∧ Spelling token chars := by
  unfold operand? at read
  split at read
  · rename_i isMinus
    cases read
    exact ⟨['-'], by rw [beq_iff_eq.1 isMinus]; rfl, .minus⟩
  · split at read
    · rename_i digit
      exact digit_led_spelled digit (Option.some.inj read)
    · split at read
      · rename_i start
        cases read
        refine ⟨_, ?_, .word start fun char member => List.mem_takeWhile_imp member⟩
        rw [List.cons_append, List.takeWhile_append_dropWhile]
      · split at read
        · rename_i isPoint
          cases read
          simp only [Bool.and_eq_true, beq_iff_eq] at isPoint
          obtain ⟨rfl, broken⟩ := isPoint
          refine ⟨[] ++ '.' :: rest.takeWhile Char.isDigit, ?_, .pointed (.inr ?_) (by simp)
            fun char member => List.mem_takeWhile_imp member⟩
          · rw [List.nil_append, List.cons_append, List.takeWhile_append_dropWhile]
          · cases rest with
            | nil => cases broken
            | cons digit rest => simp [show digit.isDigit = true from broken]
        · cases read

theorem read_spelled {afterOperand : Bool} {first : Char} {rest behind : List Char} {token : Token}
    (read : read? afterOperand first rest = some (token, behind)) :
    ∃ chars, first :: rest = chars ++ behind ∧ Spelling token chars := by
  unfold read? at read
  split at read
  · rename_i isPunctuation
    cases read
    exact ⟨[first], rfl, .punctuation isPunctuation⟩
  · split at read
    · exact operator_spelled read
    · exact operand_spelled read

theorem punctuation_none {char : Char} (kept : isHeightChar char = true) :
    punctuation? char = none := by
  unfold punctuation?
  split
  case h_6 => rfl
  all_goals exact absurd kept (by decide)

theorem code_of_letter {char : Char} (letter : char.isAlpha = true) :
    65 ≤ char.toNat ∧ char.toNat ≤ 90 ∨ 97 ≤ char.toNat ∧ char.toNat ≤ 122 := by
  rcases Bool.or_eq_true_iff.1 letter with upper | lower
  · have bounds := of_decide_eq_true upper
    exact .inl ⟨UInt32.le_iff_toNat_le.1 bounds.1, UInt32.le_iff_toNat_le.1 bounds.2⟩
  · obtain ⟨least, greatest⟩ := Bool.and_eq_true_iff.1 lower
    exact .inr ⟨UInt32.le_iff_toNat_le.1 (of_decide_eq_true least),
      UInt32.le_iff_toNat_le.1 (of_decide_eq_true greatest)⟩

theorem code_of_digit {char : Char} (digit : char.isDigit = true) :
    48 ≤ char.toNat ∧ char.toNat ≤ 57 := by
  obtain ⟨least, greatest⟩ := Bool.and_eq_true_iff.1 digit
  exact ⟨UInt32.le_iff_toNat_le.1 (of_decide_eq_true least),
    UInt32.le_iff_toNat_le.1 (of_decide_eq_true greatest)⟩

theorem height_of_start {char : Char} (start : isWordStart char = true) :
    isHeightChar char = true := by
  rcases Bool.or_eq_true_iff.1 start with letter | line
  · simp [isHeightChar, Char.isAlphanum, letter]
  · simp [isHeightChar, line]

theorem width_of_digit {char : Char} (digit : char.isDigit = true) : isWidthChar char = true := by
  have notX : char ≠ 'x' := by
    rintro rfl
    exact absurd digit (by decide)
  simp [isWidthChar, Char.isAlphanum, digit, notX]

theorem not_minus_of_height {char : Char} (kept : isHeightChar char = true) :
    (char == '-') = false := by
  apply beq_false_of_ne
  rintro rfl
  exact absurd kept (by decide)

theorem not_digit_of_start {char : Char} (start : isWordStart char = true) :
    char.isDigit = false := by
  rw [Bool.eq_false_iff]
  intro digit
  rcases Bool.or_eq_true_iff.1 start with letter | line
  · have codes := code_of_letter letter
    have code := code_of_digit digit
    omega
  · rw [beq_iff_eq.1 line] at digit
    exact absurd digit (by decide)

theorem read_digit_led {first : Char} (rest : List Char) (digit : first.isDigit = true) :
    read? false first rest = some (digitLed (first :: rest)) := by
  simp [read?, punctuation_none (height_of_digit digit), operand?,
    not_minus_of_height (height_of_digit digit), digit]

theorem resolution_none {chars : List Char} (kept : ∀ char ∈ chars, isWidthChar char = true) :
    resolution? chars = none := by
  rw [resolution?, List.dropWhile_eq_nil_iff.2 kept]

theorem read_whole {first : Char} {rest : List Char}
    (digits : ∀ char ∈ first :: rest, char.isDigit = true) :
    read? false first rest = some (.number (.ofText (first :: rest) []), []) := by
  have noResolution := resolution_none fun char member => width_of_digit (digits char member)
  have all := List.dropWhile_eq_nil_iff.2 digits
  have taken := List.takeWhile_eq_self_iff.2 digits
  rw [read_digit_led rest (digits first List.mem_cons_self), digitLed, noResolution, label?, all,
    number?, all, taken]
  rfl

theorem read_pointed {first : Char} {rest fraction : List Char}
    (digits : ∀ char ∈ first :: rest, char.isDigit = true)
    (fractionDigits : ∀ char ∈ fraction, char.isDigit = true) :
    read? false first (rest ++ '.' :: fraction) =
      some (.number (.ofText (first :: rest) fraction), []) := by
  have noResolution : resolution? (first :: rest ++ '.' :: fraction) = none := by
    apply resolution_none
    intro char member
    rcases List.mem_append.1 member with digit | later
    · exact width_of_digit (digits char digit)
    · rcases List.mem_cons.1 later with rfl | digit
      · decide
      · exact width_of_digit (fractionDigits char digit)
  have dropped : (first :: rest ++ '.' :: fraction).dropWhile Char.isDigit = '.' :: fraction := by
    rw [List.dropWhile_append_of_pos digits]
    rfl
  have taken : (first :: rest ++ '.' :: fraction).takeWhile Char.isDigit = first :: rest := by
    rw [List.takeWhile_append_of_pos digits]
    exact List.append_nil _
  have noLabel : label? (first :: rest ++ '.' :: fraction) = none := by
    rw [label?, dropped]
    rfl
  rw [read_digit_led _ (digits first List.mem_cons_self), ← List.cons_append, digitLed,
    noResolution, noLabel, number?, dropped, taken]
  simp [List.dropWhile_eq_nil_iff.2 fractionDigits, List.takeWhile_eq_self_iff.2 fractionDigits]

theorem read_label {first final : Char} {rest : List Char}
    (digits : ∀ char ∈ first :: rest, char.isDigit = true) (isFinal : final = 'p' ∨ final = 'k') :
    read? false first (rest ++ [final]) =
      some (.label (.ofList (first :: rest ++ [final])), []) := by
  have finals : final.isDigit = false ∧ isWidthChar final = true ∧
      (final == 'p' || final == 'k') = true := by
    rcases isFinal with rfl | rfl <;> decide
  have noResolution : resolution? (first :: rest ++ [final]) = none := by
    apply resolution_none
    intro char member
    rcases List.mem_append.1 member with digit | last
    · exact width_of_digit (digits char digit)
    · rw [List.mem_singleton.1 last]
      exact finals.2.1
  have dropped : (first :: rest ++ [final]).dropWhile Char.isDigit = [final] := by
    rw [List.dropWhile_append_of_pos digits]
    simp [finals.1]
  have taken : (first :: rest ++ [final]).takeWhile Char.isDigit = first :: rest := by
    rw [List.takeWhile_append_of_pos digits]
    simp [finals.1]
  have isLabel : label? (first :: rest ++ [final]) =
      some (.label (.ofList (first :: rest ++ [final])), []) := by
    rw [label?, dropped, taken]
    simp [finals.2.2]
  rw [read_digit_led _ (digits first List.mem_cons_self), ← List.cons_append, digitLed,
    noResolution, isLabel]
  rfl

theorem read_resolution {first : Char} {width height : List Char} (digit : first.isDigit = true)
    (widthChars : ∀ char ∈ width, isWidthChar char = true)
    (heightChars : ∀ char ∈ height, isHeightChar char = true) :
    read? false first (width ++ 'x' :: height) =
      some (.resolution (.ofList (first :: width)) (.ofList height), []) := by
  have widths : ∀ char ∈ first :: width, isWidthChar char = true := by
    intro char member
    rcases List.mem_cons.1 member with rfl | later
    · exact width_of_digit digit
    · exact widthChars char later
  have dropped : (first :: width ++ 'x' :: height).dropWhile isWidthChar = 'x' :: height := by
    rw [List.dropWhile_append_of_pos widths]
    rfl
  have taken : (first :: width ++ 'x' :: height).takeWhile isWidthChar = first :: width := by
    rw [List.takeWhile_append_of_pos widths]
    exact List.append_nil _
  have isResolution : resolution? (first :: width ++ 'x' :: height) =
      some (.resolution (.ofList (first :: width)) (.ofList height), []) := by
    rw [resolution?, dropped, taken]
    simp [List.dropWhile_eq_nil_iff.2 heightChars, List.takeWhile_eq_self_iff.2 heightChars]
  rw [read_digit_led _ digit, ← List.cons_append, digitLed, isResolution]
  rfl

/-- A spelling is read as its token. -/
theorem read_of_spelling {token : Token} {chars : List Char} (spelled : Spelling token chars)
    {afterOperand : Bool} (suits : token.suits afterOperand = true) :
    ∃ first rest, chars = first :: rest ∧
      read? afterOperand first rest = some (token, []) := by
  cases spelled with
  | minus =>
      obtain rfl : afterOperand = false := by simpa [Token.suits] using suits
      exact ⟨'-', [], rfl, rfl⟩
  | operator operator =>
      obtain rfl : afterOperand = true := suits
      rcases operator with mode | _
      · cases mode <;> exact ⟨_, _, rfl, rfl⟩
      · exact ⟨_, _, rfl, rfl⟩
  | whole isDigits =>
      obtain rfl : afterOperand = false := by simpa [Token.suits] using suits
      obtain ⟨first, rest, rfl⟩ := List.exists_cons_of_ne_nil isDigits.1
      exact ⟨first, rest, rfl, read_whole isDigits.2⟩
  | @pointed whole fraction begun wholeDigits fractionDigits =>
      obtain rfl : afterOperand = false := by simpa [Token.suits] using suits
      cases whole with
      | nil =>
          refine ⟨'.', fraction, rfl, ?_⟩
          obtain ⟨digit, more, rfl⟩ := List.exists_cons_of_ne_nil (begun.resolve_left (absurd rfl))
          have digits := fractionDigits digit List.mem_cons_self
          rw [read?, punctuation_none (by decide), operand?]
          simp [isWordStart, digits, List.dropWhile_eq_nil_iff.2 fractionDigits,
            List.takeWhile_eq_self_iff.2 fractionDigits]
      | cons first rest => exact ⟨first, _, rfl, read_pointed wholeDigits fractionDigits⟩
  | @word first rest start kept =>
      obtain rfl : afterOperand = false := by simpa [Token.suits] using suits
      refine ⟨first, rest, rfl, ?_⟩
      have noDigit := not_digit_of_start start
      simp [read?, punctuation_none (height_of_start start), operand?,
        not_minus_of_height (height_of_start start), noDigit, start,
        List.dropWhile_eq_nil_iff.2 kept, List.takeWhile_eq_self_iff.2 kept]
  | @label digits final isDigits isFinal =>
      obtain rfl : afterOperand = false := by simpa [Token.suits] using suits
      obtain ⟨first, rest, rfl⟩ := List.exists_cons_of_ne_nil isDigits.1
      exact ⟨first, rest ++ [final], rfl, read_label isDigits.2 isFinal⟩
  | resolution digit widthChars heightChars =>
      obtain rfl : afterOperand = false := by simpa [Token.suits] using suits
      exact ⟨_, _, rfl, read_resolution digit widthChars heightChars⟩
  | punctuation isPunctuation => exact ⟨_, [], rfl, by rw [read?, isPunctuation]⟩

end ImageGraph.Expr.Token
