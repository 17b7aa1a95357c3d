import ImageGraph.Proofs.Acceptance
import ImageGraph.Proofs.Building

/-!
Matches of single tokens. A rule for a token matches exactly what the reader takes for the token,
given that the alternatives in front of it have been refused. The text of its pair is the spelling,
which is all that the builder needs to make the same operand of it.
-/

set_option autoImplicit false

namespace ImageGraph.Expr

open Token
open Number (Decimal)

theorem read_number_spelled {decimal : Decimal} {spelling : List Char}
    (spelled : Spelling (.number decimal) spelling) : readNumber? spelling = some decimal := by
  cases spelled with
  | whole isDigits =>
      have dropped := List.dropWhile_eq_nil_iff.2 isDigits.2
      have taken := List.takeWhile_eq_self_iff.2 isDigits.2
      simp only [readNumber?, dropped, taken]
      exact if_neg (by simpa using isDigits.1)
  | @pointed whole fraction begun wholeDigits fractionDigits =>
      have dropped : (whole ++ '.' :: fraction).dropWhile Char.isDigit = '.' :: fraction := by
        rw [List.dropWhile_append_of_pos wholeDigits]
        rfl
      have taken : (whole ++ '.' :: fraction).takeWhile Char.isDigit = whole := by
        rw [List.takeWhile_append_of_pos wholeDigits]
        exact List.append_nil _
      have digits : fraction.all Char.isDigit = true := List.all_eq_true.2 fractionDigits
      have some : (whole.isEmpty && fraction.isEmpty) = false := by
        rw [Bool.and_eq_false_iff, List.isEmpty_eq_false_iff, List.isEmpty_eq_false_iff]
        exact begun
      simp [readNumber?, dropped, taken, digits, some]
  | punctuation isPunctuation =>
      unfold punctuation? at isPunctuation
      split at isPunctuation <;> cases isPunctuation

variable {offset stop early : Nat} {chars rest spelling behind : List Char}
  {attempts after before between : Attempts} {pairs : List Pair} {piece : Piece}

theorem Runs.not_takes (refused : Runs piece offset chars attempts (.failed after))
    (parts : chars = spelling ++ behind) : ¬piece.Takes spelling behind := by
  intro takes
  subst parts
  cases refused.deterministic (takes offset attempts)

theorem Runs.not_misses (runs : Runs piece offset chars attempts (.matched stop rest after))
    {rules : List Rule} : ¬piece.Misses chars rules := by
  intro misses
  cases runs.deterministic (misses offset attempts)

theorem Matches.word_read
    (matched : Matches (.rule .word) offset chars attempts stop rest after pairs) :
    ∃ spelling, chars = spelling ++ rest ∧ stop = offset + spelling.length ∧
      IsRead false (.word (.ofList spelling)) spelling rest ∧
      pairs = [.node .word ⟨offset, stop⟩ (.ofList spelling) []] := by
  obtain ⟨middle, first, -⟩ := Derives.both_iff.1 (Derives.rule_iff.1 matched.runs.derives)
  obtain ⟨char, start, rfl⟩ := Derives.one_iff.1 first
  obtain ⟨rfl, rfl, rfl⟩ :=
    matched.single_of_takes rfl (word_parts char middle) (Piece.takes_word start middle)
  exact ⟨_, word_parts char middle, rfl, is_read_word start middle, rfl⟩

theorem is_read_of_digit {first : Char} {others : List Char} {token : Token}
    (digit : first.isDigit = true) (parts : first :: others = spelling ++ rest)
    (read : digitLed (first :: others) = (token, rest)) : IsRead false token spelling rest := by
  refine ⟨first, others, parts.symm, ?_⟩
  rw [read_digit_led others digit, read]

theorem Matches.resolution_read
    (matched : Matches (.rule .resolution) offset chars attempts stop rest after pairs) :
    ∃ spelling width height text inner, chars = spelling ++ rest ∧
      stop = offset + spelling.length ∧ IsRead false (.resolution width height) spelling rest ∧
      Pair.lastText .width inner = width ∧ Pair.lastText .height inner = height ∧
      pairs = [.node .resolution ⟨offset, stop⟩ text inner] := by
  obtain ⟨inner, body, rfl⟩ := matched.rule_parts
  obtain ⟨_, _, _, _, _, width, more, rfl⟩ := body.both_parts
  obtain ⟨_, behind, _, _, _, separator, height, rfl⟩ := more.both_parts
  obtain ⟨others, first, -⟩ := Derives.both_iff.1 (Derives.rule_iff.1 width.runs.derives)
  obtain ⟨digit, isDigit, rfl⟩ := Derives.one_iff.1 first
  have widthParts := List.takeWhile_append_dropWhile (p := isWidthChar) (l := digit :: others)
  obtain ⟨rfl, rfl, rfl⟩ :=
    width.single_of_takes rfl widthParts.symm (Piece.takes_width isDigit others)
  obtain ⟨begins, rfl, -, rfl⟩ := separator.text_parts
  rw [List.singleton_append] at begins
  have heightParts := List.takeWhile_append_dropWhile (p := isHeightChar) (l := behind)
  obtain ⟨rfl, rfl, rfl⟩ := height.single_of_takes rfl heightParts.symm (Piece.takes_height _)
  have found : resolution? (digit :: others) =
      Option.some (.resolution (.ofList ((digit :: others).takeWhile isWidthChar))
        (.ofList (behind.takeWhile isHeightChar)), behind.dropWhile isHeightChar) := by
    simp only [resolution?, begins]
  have parts : digit :: others =
      ((digit :: others).takeWhile isWidthChar ++ 'x' :: behind.takeWhile isHeightChar) ++
        behind.dropWhile isHeightChar := by
    rw [List.append_assoc, List.cons_append, heightParts, ← begins, widthParts]
  refine ⟨_, _, _, _, _, parts, ?_, is_read_of_digit isDigit parts ?_, rfl, rfl, rfl⟩
  · simp only [List.length_append, List.length_cons]
    change _ + 1 + _ = _
    omega
  · rw [digitLed, found]
    rfl

theorem no_resolution {digit : Char} {others : List Char} (isDigit : digit.isDigit = true)
    (refused : Runs (.rule .resolution) early (digit :: others) before (.failed between)) :
    resolution? (digit :: others) = none := by
  cases found : resolution? (digit :: others) with
  | none => rfl
  | some reading =>
      obtain ⟨spelling, parts, takes⟩ := Piece.takes_resolution isDigit found
      exact absurd takes (refused.not_takes parts)

theorem no_label {digit : Char} {others : List Char} (isDigit : digit.isDigit = true)
    (refused : Runs (.rule .label) early (digit :: others) before (.failed between)) :
    label? (digit :: others) = none := by
  cases found : label? (digit :: others) with
  | none => rfl
  | some reading =>
      obtain ⟨spelling, parts, takes⟩ := Piece.takes_label isDigit found
      exact absurd takes (refused.not_takes parts)

theorem label_text {token : Token} (found : label? chars = some (token, behind)) :
    ∃ spelling, chars = spelling ++ behind ∧ token = .label (.ofList spelling) := by
  have parts := List.takeWhile_append_dropWhile (p := Char.isDigit) (l := chars)
  unfold label? at found
  split at found
  · rename_i final more separator
    split at found
    · cases found
      refine ⟨_, ?_, rfl⟩
      rw [List.append_assoc, List.singleton_append, ← separator, parts]
    · cases found
  · cases found

theorem Matches.label_read
    (matched : Matches (.rule .label) offset chars attempts stop rest after pairs)
    (noResolution : Runs (.rule .resolution) early chars before (.failed between)) :
    ∃ spelling, chars = spelling ++ rest ∧ stop = offset + spelling.length ∧
      IsRead false (.label (.ofList spelling)) spelling rest ∧
      pairs = [.node .label ⟨offset, stop⟩ (.ofList spelling) []] := by
  obtain ⟨middle, digits, -⟩ := Derives.both_iff.1 (Derives.rule_iff.1 matched.runs.derives)
  obtain ⟨others, first, -⟩ := Derives.both_iff.1 digits
  obtain ⟨digit, isDigit, rfl⟩ := Derives.one_iff.1 first
  have unresolved := no_resolution isDigit noResolution
  cases found : label? (digit :: others) with
  | none => exact absurd (Piece.misses_label isDigit found) matched.runs.not_misses
  | some reading =>
      obtain ⟨token, behind⟩ := reading
      obtain ⟨spelling, parts, takes⟩ := Piece.takes_label isDigit found
      obtain ⟨text, sameParts, rfl⟩ := label_text found
      obtain rfl := List.append_cancel_right (sameParts.symm.trans parts)
      obtain ⟨rfl, rfl, rfl⟩ := matched.single_of_takes rfl parts takes
      refine ⟨_, parts, rfl, is_read_of_digit isDigit parts ?_, rfl⟩
      rw [digitLed, unresolved, found]
      rfl

theorem Matches.number_read
    (matched : Matches (.rule .number) offset chars attempts stop rest after pairs)
    (noResolution : Runs (.rule .resolution) early chars before (.failed between))
    {later : Nat} {last failed : Attempts}
    (noLabel : Runs (.rule .label) later chars last (.failed failed)) :
    ∃ spelling decimal, chars = spelling ++ rest ∧ stop = offset + spelling.length ∧
      IsRead false (.number decimal) spelling rest ∧ readNumber? spelling = Option.some decimal ∧
      pairs = [.node .number ⟨offset, stop⟩ (.ofList spelling) []] := by
  obtain whole | broken := Derives.either_iff.1 (Derives.rule_iff.1 matched.runs.derives)
  · obtain ⟨middle, digits, -⟩ := Derives.both_iff.1 whole
    obtain ⟨others, first, -⟩ := Derives.both_iff.1 digits
    obtain ⟨digit, isDigit, rfl⟩ := Derives.one_iff.1 first
    obtain ⟨spelling, parts, takes⟩ := Piece.takes_number isDigit others
    obtain ⟨text, sameParts, spelled⟩ := number_spelled others isDigit
    obtain rfl := List.append_cancel_right (sameParts.symm.trans parts)
    obtain ⟨rfl, rfl, rfl⟩ := matched.single_of_takes rfl parts takes
    obtain ⟨decimal, isNumber⟩ : ∃ decimal, (number? (digit :: others)).1 = .number decimal := by
      unfold number?
      split <;> exact ⟨_, rfl⟩
    rw [isNumber] at spelled
    refine ⟨_, decimal, parts, rfl, is_read_of_digit isDigit parts ?_,
      read_number_spelled spelled, rfl⟩
    rw [digitLed, no_resolution isDigit noResolution, no_label isDigit noLabel]
    exact Prod.ext isNumber rfl
  · obtain ⟨middle, point, digits⟩ := Derives.both_iff.1 broken
    obtain ⟨others, first, -⟩ := Derives.both_iff.1 digits
    obtain ⟨digit, isDigit, rfl⟩ := Derives.one_iff.1 first
    obtain rfl := Derives.text_iff.1 point
    have parts : ['.'] ++ digit :: others = ('.' :: (digit :: others).takeWhile Char.isDigit) ++
        (digit :: others).dropWhile Char.isDigit := by
      rw [List.singleton_append, List.cons_append, List.takeWhile_append_dropWhile]
    obtain ⟨rfl, rfl, rfl⟩ :=
      matched.single_of_takes rfl parts (Piece.takes_fraction isDigit others)
    have spelled : Spelling (.number (.ofText [] ((digit :: others).takeWhile Char.isDigit)))
        ([] ++ '.' :: (digit :: others).takeWhile Char.isDigit) :=
      .pointed (.inr (by simp [isDigit])) (by simp) fun char member =>
        List.mem_takeWhile_imp member
    refine ⟨_, _, parts, rfl, ?_, read_number_spelled spelled, rfl⟩
    refine ⟨'.', digit :: others, parts.symm, ?_⟩
    change operand? '.' (digit :: others) = _
    have begins : (digit :: others).head?.any Char.isDigit = true := isDigit
    unfold operand?
    rw [begins]
    rfl

theorem Matches.one_of_parts {pieces : List Piece}
    (matched : Matches (.oneOf pieces) offset chars attempts stop rest after pairs) :
    ∃ piece ∈ pieces, ∃ before, Matches piece offset chars before stop rest after pairs := by
  induction pieces generalizing attempts with
  | nil => cases matched with
    | one _ _ _ kept => cases kept
  | cons first others induction =>
      cases others with
      | nil => exact ⟨first, List.mem_singleton_self first, _, matched⟩
      | cons second others =>
          cases matched with
          | first taken => exact ⟨first, List.mem_cons_self, _, taken⟩
          | second refused taken =>
              obtain ⟨piece, member, before, found⟩ := induction taken
              exact ⟨piece, List.mem_cons_of_mem first member, before, found⟩

theorem Matches.operator_read
    (matched : Matches .anyOperator offset chars attempts stop rest after pairs) :
    ∃ operator : Operator, chars = operator.symbol.toList ++ rest ∧
      stop = offset + operator.symbol.toList.length ∧
      IsRead true (.operator operator) operator.symbol.toList rest ∧
      pairs = [.node (.symbol operator) ⟨offset, stop⟩ operator.symbol []] := by
  obtain ⟨piece, member, before, single⟩ := matched.one_of_parts
  obtain ⟨operator, -, rfl⟩ := List.mem_map.1 member
  obtain rfl := Derives.text_iff.1 (Derives.rule_iff.1 single.runs.derives)
  obtain ⟨rfl, -, rfl⟩ := single.single_of_takes rfl rfl (Piece.takes_symbol operator)
  refine ⟨operator, rfl, rfl, ?_, by rw [String.ofList_toList]⟩
  cases found : operator? (operator.symbol.toList ++ rest) with
  | none => exact absurd (Piece.misses_any_operator found) matched.runs.not_misses
  | some reading =>
      obtain ⟨taken, -, rfl⟩ := Option.map_eq_some_iff.1 found
      obtain ⟨_, -, runs⟩ := Piece.runs_any_operator found offset attempts
      have parts := operator_parts found
      generalize (operator.symbol.toList ++ rest).drop taken.symbol.length = behind at *
      obtain ⟨-, rfl, -⟩ := Ending.matched.inj (matched.runs.deterministic runs)
      have sameSymbol := String.toList_inj.1 (List.append_cancel_right parts)
      have same := Operator.of_symbol operator
      rw [sameSymbol, Operator.of_symbol] at same
      cases same
      exact is_read_operator found

end ImageGraph.Expr
