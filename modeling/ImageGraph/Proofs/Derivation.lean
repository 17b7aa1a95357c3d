import ImageGraph.Proofs.Progress
import ImageGraph.Proofs.Rules

/-!
What is derivable is read. A derivation may stop early in words and numbers, and it may take `--`
for two minus signs. But what stands behind such a place has to be derivable too, and nothing is.
-/

set_option autoImplicit false

namespace ImageGraph.Expr

open Token

namespace Derives

variable {piece first second : Piece} {chars middle rest : List Char} {keep : Char → Bool}

theorem text_iff {symbol : List Char} :
    Derives (.text symbol) chars rest ↔ chars = symbol ++ rest := by
  refine ⟨?_, ?_⟩
  · rintro ⟨⟩
    rfl
  · rintro rfl
    exact .text rest

theorem one_iff :
    Derives (.one keep) chars rest ↔ ∃ char, keep char = true ∧ chars = char :: rest := by
  refine ⟨?_, ?_⟩
  · rintro ⟨⟩
    exact ⟨_, ‹_›, rfl⟩
  · rintro ⟨char, kept, rfl⟩
    exact .one rest kept

theorem absent_iff :
    Derives (.absent keep) chars rest ↔ chars = rest ∧ chars.head?.any keep = false := by
  refine ⟨?_, ?_⟩
  · rintro ⟨⟩
    exact ⟨rfl, ‹_›⟩
  · rintro ⟨rfl, none⟩
    exact .absent none

theorem ended_iff : Derives .ended chars rest ↔ chars = [] ∧ rest = [] := by
  refine ⟨?_, ?_⟩
  · rintro ⟨⟩
    exact ⟨rfl, rfl⟩
  · rintro ⟨rfl, rfl⟩
    exact .ended

theorem rule_iff {name : Rule} :
    Derives (.rule name) chars rest ↔ Derives name.body chars rest := by
  refine ⟨?_, .rule⟩
  rintro ⟨⟩
  assumption

theorem both_iff :
    Derives (.both first second) chars rest ↔
      ∃ middle, Derives first chars middle ∧ Derives second middle rest := by
  refine ⟨?_, fun ⟨_, before, behind⟩ => .both before behind⟩
  rintro ⟨⟩
  exact ⟨_, ‹_›, ‹_›⟩

theorem either_iff :
    Derives (.either first second) chars rest ↔
      Derives first chars rest ∨ Derives second chars rest := by
  refine ⟨?_, fun taken => taken.elim .first .second⟩
  rintro ⟨⟩
  · exact .inl ‹_›
  · exact .inr ‹_›

theorem maybe_iff :
    Derives (.maybe piece) chars rest ↔ chars = rest ∨ Derives piece chars rest := by
  refine ⟨?_, ?_⟩
  · rintro ⟨⟩
    · exact .inl rfl
    · exact .inr ‹_›
  · rintro (rfl | taken)
    · exact .none chars
    · exact .some taken

theorem one_of_iff {pieces : List Piece} :
    Derives (.oneOf pieces) chars rest ↔ ∃ piece ∈ pieces, Derives piece chars rest := by
  induction pieces with
  | nil => simp [Piece.oneOf, one_iff]
  | cons first others induction =>
      cases others with
      | nil => simp [Piece.oneOf]
      | cons second others =>
          rw [Piece.oneOf, either_iff, induction]
          · simp
          · simp

theorem star_chars
    (once : ∀ chars rest, Derives piece chars rest →
      ∃ char, keep char = true ∧ chars = char :: rest)
    (derives : Derives (.star piece) chars rest) :
    ∃ taken, chars = taken ++ rest ∧ ∀ char ∈ taken, keep char = true := by
  generalize isStar : Piece.star piece = repeated at derives
  induction derives with
  | stop => exact ⟨[], rfl, by simp⟩
  | further first again _ againInduction =>
      cases isStar
      obtain ⟨taken, rfl, kept⟩ := againInduction rfl
      obtain ⟨char, keptFirst, rfl⟩ := once _ _ first
      refine ⟨char :: taken, rfl, ?_⟩
      simp only [List.forall_mem_cons]
      exact ⟨keptFirst, kept⟩
  | _ => cases isStar

theorem star_one (derives : Derives (.star (.one keep)) chars rest) :
    ∃ taken, chars = taken ++ rest ∧ ∀ char ∈ taken, keep char = true :=
  star_chars (fun _ _ => one_iff.1) derives

theorem gap_iff :
    Derives .gap chars rest ↔ ∃ gap, chars = gap ++ rest ∧ ∀ char ∈ gap, isGap char = true := by
  refine ⟨star_one, ?_⟩
  rintro ⟨gap, rfl, gaps⟩
  induction gap with
  | nil => exact .stop rest
  | cons char gap induction =>
      rw [List.forall_mem_cons] at gaps
      exact .further (.one _ gaps.1) (induction gaps.2)

theorem spaced_iff :
    Derives (.spaced first second) chars rest ↔
      ∃ before behind, Derives first chars before ∧ Derives .gap before behind ∧
        Derives second behind rest := by
  refine ⟨fun derives => ?_, fun ⟨_, _, taken, gap, last⟩ => .both taken (.both gap last)⟩
  obtain ⟨before, taken, more⟩ := both_iff.1 derives
  obtain ⟨behind, gap, last⟩ := both_iff.1 more
  exact ⟨before, behind, taken, gap, last⟩

theorem digits_spelled (derives : Derives .digits chars rest) :
    ∃ digits, chars = digits ++ rest ∧ IsDigits digits := by
  obtain ⟨middle, first, more⟩ := both_iff.1 derives
  obtain ⟨digit, isDigit, rfl⟩ := one_iff.1 first
  obtain ⟨digits, rfl, areDigits⟩ := star_one more
  refine ⟨digit :: digits, rfl, by simp, ?_⟩
  simp only [List.forall_mem_cons]
  exact ⟨isDigit, areDigits⟩

theorem word_spelled (derives : Derives (.rule .word) chars rest) :
    ∃ spelling, chars = spelling ++ rest ∧ Spelling (.word (.ofList spelling)) spelling := by
  obtain ⟨middle, first, more⟩ := both_iff.1 (rule_iff.1 derives)
  obtain ⟨char, start, rfl⟩ := one_iff.1 first
  obtain ⟨others, rfl, kept⟩ := star_one more
  exact ⟨char :: others, rfl, .word start kept⟩

theorem label_spelled (derives : Derives (.rule .label) chars rest) :
    ∃ spelling, chars = spelling ++ rest ∧ Spelling (.label (.ofList spelling)) spelling := by
  obtain ⟨middle, first, more⟩ := both_iff.1 (rule_iff.1 derives)
  obtain ⟨digits, rfl, isDigits⟩ := digits_spelled first
  obtain ⟨behind, last, absent⟩ := both_iff.1 more
  obtain ⟨char, isFinal, rfl⟩ := one_iff.1 last
  obtain ⟨rfl, -⟩ := absent_iff.1 absent
  refine ⟨digits ++ [char], by simp, .label isDigits ?_⟩
  simpa using isFinal

theorem number_spelled (derives : Derives (.rule .number) chars rest) :
    ∃ spelling decimal, chars = spelling ++ rest ∧ Spelling (.number decimal) spelling := by
  obtain whole | broken := either_iff.1 (rule_iff.1 derives)
  · obtain ⟨middle, first, more⟩ := both_iff.1 whole
    obtain ⟨digits, rfl, isDigits⟩ := digits_spelled first
    obtain rfl | fraction := maybe_iff.1 more
    · exact ⟨digits, _, rfl, .whole isDigits⟩
    · obtain ⟨behind, point, last⟩ := both_iff.1 fraction
      obtain rfl := text_iff.1 point
      obtain ⟨others, rfl, areDigits⟩ := star_one last
      exact ⟨digits ++ '.' :: others, _, by simp, .pointed (.inl isDigits.1) isDigits.2 areDigits⟩
  · obtain ⟨behind, point, last⟩ := both_iff.1 broken
    obtain rfl := text_iff.1 point
    obtain ⟨others, rfl, isDigits⟩ := digits_spelled last
    exact ⟨[] ++ '.' :: others, _, by simp, .pointed (.inr isDigits.1) (by simp) isDigits.2⟩

theorem resolution_spelled (derives : Derives (.rule .resolution) chars rest) :
    ∃ spelling width height, chars = spelling ++ rest ∧
      Spelling (.resolution width height) spelling := by
  obtain ⟨behindWidth, width, more⟩ := both_iff.1 (rule_iff.1 derives)
  obtain ⟨middle, first, others⟩ := both_iff.1 (rule_iff.1 width)
  obtain ⟨digit, isDigit, rfl⟩ := one_iff.1 first
  have widthChar (chars rest : List Char)
      (once : Derives (.both (.absent (· == 'x'))
        (.one fun char => char.isAlphanum || char == '.')) chars rest) :
      ∃ char, isWidthChar char = true ∧ chars = char :: rest := by
    obtain ⟨middle, absent, one⟩ := both_iff.1 once
    obtain ⟨rfl, noX⟩ := absent_iff.1 absent
    obtain ⟨char, kept, rfl⟩ := one_iff.1 one
    have notX : (char != 'x') = true := by simpa using noX
    exact ⟨char, by rw [isWidthChar, notX, kept]; rfl, rfl⟩
  obtain ⟨widths, rfl, areWidths⟩ := star_chars widthChar others
  obtain ⟨behind, separator, height⟩ := both_iff.1 more
  obtain rfl := text_iff.1 separator
  obtain ⟨heights, rfl, areHeights⟩ := star_one (rule_iff.1 height)
  exact ⟨digit :: widths ++ 'x' :: heights, _, _, by simp, .resolution isDigit areWidths areHeights⟩

theorem gap_solid {char : Char} {others : List Char} (solid : isGap char = false)
    (derives : Derives .gap (char :: others) rest) : rest = char :: others := by
  obtain ⟨gap, begins, gaps⟩ := gap_iff.1 derives
  cases gap with
  | nil => exact begins.symm
  | cons first gap =>
      cases begins
      exact absurd ((gaps char List.mem_cons_self).symm.trans solid) (by decide)

end Derives

/-- Any number of pieces, each with any blanks before it. -/
inductive Repeated (piece : Piece) : List Char → List Char → Prop where
  | done (rest : List Char) : Repeated piece rest rest
  | again {chars padded middle rest : List Char} (gap : Derives .gap chars padded)
      (once : Derives piece padded middle) (others : Repeated piece middle rest) :
      Repeated piece chars rest

theorem Repeated.suffix {piece : Piece} {chars rest : List Char}
    (repeats : Repeated piece chars rest) : rest <:+ chars := by
  induction repeats with
  | done => exact List.suffix_rfl
  | again gap once others induction => exact induction.trans (once.suffix.trans gap.suffix)

theorem Derives.star_repeated {piece : Piece} {chars rest : List Char}
    (derives : Derives (.star (.both .gap piece)) chars rest) : Repeated piece chars rest := by
  generalize isStar : Piece.star (.both .gap piece) = repeated at derives
  induction derives with
  | stop => exact .done _
  | further first again _ againInduction =>
      cases isStar
      obtain ⟨padded, gap, once⟩ := both_iff.1 first
      exact .again gap once (againInduction rfl)
  | _ => cases isStar

theorem Derives.repeated {piece : Piece} {chars rest : List Char}
    (derives : Derives (.spacedStar piece) chars rest) : Repeated piece chars rest := by
  obtain rfl | taken := maybe_iff.1 derives
  · exact .done _
  · obtain ⟨middle, once, again⟩ := both_iff.1 taken
    exact .again (.stop _) once again.star_repeated

/-- A text that does not go on with an operand that ends in front of it. -/
def Parted (rest : List Char) : Prop :=
  Leaves isHeightChar rest ∧ (unpadded rest).head? ≠ some '('

namespace Parted

variable {piece : Piece} {chars padded rest : List Char}

theorem of_solid {first : Char} (solid : isGap first = false) (ends : isHeightChar first = false)
    (noParen : first ≠ '(') (others : List Char) : Parted (first :: others) := by
  refine ⟨by simpa [Leaves] using ends, ?_⟩
  simpa [unpadded, solid] using noParen

theorem pad (parted : Parted padded) (blank : Derives .gap chars padded) : Parted chars := by
  obtain ⟨gap, rfl, gaps⟩ := Derives.gap_iff.1 blank
  refine ⟨?_, ?_⟩
  · cases gap with
    | nil => exact parted.1
    | cons first gap =>
        have ends : Leaves isHeightChar (first :: gap) := (stops_of_gaps gaps).leaves (by decide)
        simpa [Leaves] using ends
  · rw [unpadded, List.dropWhile_append_of_pos gaps]
    exact parted.2

theorem repeated (parted : Parted rest)
    (begins : ∀ chars middle, Derives piece chars middle → Parted chars)
    (repeats : Repeated piece chars rest) : Parted chars := by
  cases repeats with
  | done => exact parted
  | again gap once others => exact (begins _ _ once).pad gap

end Parted

namespace State

/-- Reading goes on behind an operand, wherever it stands. -/
def Passed (chars rest : List Char) : Prop :=
  ∀ opened level offset, ∃ after latest stop,
    readFrom ⟨opened, level, .operand⟩ offset chars =
      readFrom ⟨opened, after, .operator latest⟩ stop rest

/-- Reading goes on behind something that continues the innermost brackets. -/
def Continued (opened : List Open) (chars rest : List Char) : Prop :=
  ∀ level latest offset, ∃ after last stop,
    readFrom ⟨opened, level, .operator latest⟩ offset chars =
      readFrom ⟨opened, after, .operator last⟩ stop rest

variable {piece : Piece} {opened : List Open} {chars padded middle rest : List Char}

theorem read_from_gap (blank : Derives .gap chars padded) (state : State) (offset : Nat) :
    ∃ stop, state.readFrom offset chars = state.readFrom stop padded := by
  obtain ⟨gap, rfl, gaps⟩ := Derives.gap_iff.1 blank
  exact ⟨_, read_from_gaps gaps state offset padded⟩

theorem Passed.pad (passed : Passed padded rest) (gap : Derives .gap chars padded) :
    Passed chars rest := by
  intro opened level offset
  obtain ⟨stop, same⟩ := read_from_gap gap ⟨opened, level, .operand⟩ offset
  obtain ⟨after, latest, last, passes⟩ := passed opened level stop
  exact ⟨after, latest, last, same.trans passes⟩

theorem Passed.signs (passed : Passed middle rest) (signs : Repeated (.rule .minus) chars middle) :
    Passed chars rest := by
  induction signs with
  | done => exact passed
  | again gap once others induction =>
      obtain rfl := Derives.text_iff.1 (Derives.rule_iff.1 once)
      refine Passed.pad ?_ gap
      intro opened level offset
      obtain ⟨after, latest, stop, passes⟩ := induction passed opened
        { level with minuses := offset :: level.minuses } (offset + 1)
      exact ⟨after, latest, stop, read_from_minus.trans passes⟩

theorem Continued.pad (continued : Continued opened padded rest)
    (gap : Derives .gap chars padded) : Continued opened chars rest := by
  intro level latest offset
  obtain ⟨stop, same⟩ := read_from_gap gap ⟨opened, level, .operator latest⟩ offset
  obtain ⟨after, last, final, continues⟩ := continued level latest stop
  exact ⟨after, last, final, same.trans continues⟩

theorem Continued.repeated (opened : List Open) (parted : Parted rest)
    (begins : ∀ chars middle, Derives piece chars middle → Parted chars)
    (once : ∀ before middle, before.length ≤ chars.length → Derives piece before middle →
      Parted middle → Continued opened before middle)
    (repeats : Repeated piece chars rest) : Continued opened chars rest := by
  induction repeats with
  | done => exact fun level latest offset => ⟨level, latest, offset, rfl⟩
  | @again chars padded middle rest gap first others induction =>
      have shorter := (Derives.suffix gap).length_le
      have shorterBehind := (Derives.suffix first).length_le
      have behind := induction parted fun before _ short =>
        once before _ (short.trans (shorterBehind.trans shorter))
      refine Continued.pad ?_ gap
      intro level latest offset
      obtain ⟨between, inner, stop, continues⟩ :=
        once padded middle shorter first (parted.repeated begins others) level latest offset
      obtain ⟨after, last, final, more⟩ := behind between inner stop
      exact ⟨after, last, final, continues.trans more⟩

/-- Whole expressions up to some length are read. -/
def ReadsWithin (length : Nat) : Prop :=
  ∀ chars rest, chars.length < length → Derives (.rule .expression) chars rest → Parted rest →
    Passed chars rest

end State

theorem Derives.primary_head {chars rest : List Char} (derives : Derives .primary chars rest) :
    ∃ first others, chars = first :: others ∧
      (isHeightChar first = true ∨ first = '(' ∨ first = '[') := by
  have plain {token : Token} {spelling behind : List Char} (spelled : Spelling token spelling)
      (isPlain : token.isPlain = true) (suits : token.suits false = true) :
      ∃ first others, spelling ++ behind = first :: others ∧
        (isHeightChar first = true ∨ first = '(' ∨ first = '[') := by
    obtain ⟨first, others, rfl, -⟩ := read_of_spelling spelled suits
    exact ⟨first, _, rfl, .inl (height_of_spelling spelled isPlain first List.mem_cons_self)⟩
  obtain ⟨piece, listed, derives⟩ := one_of_iff.1 derives
  simp only [List.mem_cons, List.not_mem_nil, or_false] at listed
  rcases listed with rfl | rfl | rfl | rfl | rfl | rfl | rfl
  · obtain ⟨before, behind, word, -⟩ := spaced_iff.1 (rule_iff.1 derives)
    obtain ⟨spelling, rfl, spelled⟩ := word_spelled word
    exact plain spelled rfl rfl
  · obtain ⟨before, behind, bracket, -⟩ := spaced_iff.1 (rule_iff.1 derives)
    obtain rfl := text_iff.1 bracket
    exact ⟨'[', before, rfl, .inr (.inr rfl)⟩
  · obtain ⟨spelling, width, height, rfl, spelled⟩ := resolution_spelled derives
    exact plain spelled rfl rfl
  · obtain ⟨spelling, rfl, spelled⟩ := label_spelled derives
    exact plain spelled rfl rfl
  · obtain ⟨spelling, decimal, rfl, spelled⟩ := number_spelled derives
    exact plain spelled rfl rfl
  · obtain ⟨spelling, rfl, spelled⟩ := word_spelled derives
    exact plain spelled rfl rfl
  · obtain ⟨before, behind, paren, -⟩ := spaced_iff.1 derives
    obtain rfl := text_iff.1 paren
    exact ⟨'(', before, rfl, .inr (.inl rfl)⟩

namespace State

variable {length : Nat} {chars rest : List Char}

theorem continued_item (within : ReadsWithin length) (short : chars.length ≤ length)
    (derives : Derives (.spaced (.text [',']) (.rule .expression)) chars rest)
    (parted : Parted rest) {opened : List Open} (lists : mayList opened = true) :
    Continued opened chars rest := by
  obtain ⟨before, behind, comma, blank, expression⟩ := Derives.spaced_iff.1 derives
  obtain rfl := Derives.text_iff.1 comma
  have shorter := blank.suffix.length_le
  have passed := within behind rest (Nat.lt_of_le_of_lt shorter short) expression parted
  intro level latest offset
  obtain ⟨after, last, stop, passes⟩ :=
    passed.pad blank opened (level.nextItem latest) (offset + 1)
  exact ⟨after, last, stop, (read_from_comma lists).trans passes⟩

theorem parted_item {chars middle : List Char}
    (derives : Derives (.spaced (.text [',']) (.rule .expression)) chars middle) :
    Parted chars := by
  obtain ⟨before, behind, comma, -⟩ := Derives.spaced_iff.1 derives
  obtain rfl := Derives.text_iff.1 comma
  exact .of_solid rfl rfl (by decide) before

theorem parted_closer (bracket : Bracket) (rest : List Char) : Parted (bracket.closer :: rest) := by
  cases bracket <;> exact .of_solid rfl rfl (by simp [Bracket.closer]) rest

/-- Inside the brackets of a list, reading goes on behind the closing bracket. -/
theorem read_from_list (within : ReadsWithin length) (bracket : Bracket)
    (notGroup : bracket ≠ .group) {inside : List Char} (short : inside.length < length)
    (blank : Derives .gap inside chars)
    (derives : Derives (.spaced (.maybe .list) (.text [bracket.closer])) chars rest)
    (opened : List Open) (outside : Level) (start offset : Nat) :
    ∃ whole stop, readFrom ⟨⟨bracket, start, outside⟩ :: opened, .fresh, .operand⟩ offset inside =
      readFrom ⟨opened, outside, .operator whole⟩ stop rest := by
  obtain ⟨before, behind, items, blankBehind, closes⟩ := Derives.spaced_iff.1 derives
  obtain rfl := Derives.text_iff.1 closes
  have shortChars := Nat.lt_of_le_of_lt blank.suffix.length_le short
  obtain rfl | list := Derives.maybe_iff.1 items
  · obtain ⟨first, skips⟩ := read_from_gap blank ⟨⟨bracket, start, outside⟩ :: opened, .fresh,
      .operand⟩ offset
    obtain ⟨second, skipsMore⟩ := read_from_gap blankBehind ⟨⟨bracket, start, outside⟩ :: opened,
      .fresh, .operand⟩ first
    obtain ⟨whole, closed⟩ := read_from_close_empty notGroup start outside
    exact ⟨whole, _, (skips.trans skipsMore).trans closed⟩
  · obtain ⟨middle, others, expression, blankMiddle, more⟩ := Derives.spaced_iff.1 list
    have partedBefore := (parted_closer bracket rest).pad blankBehind
    have repeats := more.repeated
    have partedOthers := partedBefore.repeated (fun _ _ => parted_item) repeats
    have lists := may_list notGroup start outside opened
    have shortOthers : others.length ≤ length :=
      (blankMiddle.suffix.trans expression.suffix).length_le.trans (Nat.le_of_lt shortChars)
    have passed :=
      (within chars middle shortChars expression (partedOthers.pad blankMiddle)).pad blank
    have continued := Continued.pad (Continued.repeated _ partedBefore (fun _ _ => parted_item)
      (fun _ _ shorter once parted =>
        continued_item within (shorter.trans shortOthers) once parted lists) repeats) blankMiddle
    obtain ⟨between, inner, stop, passes⟩ :=
      passed (⟨bracket, start, outside⟩ :: opened) .fresh offset
    obtain ⟨after, last, stopBehind, continues⟩ := continued between inner stop
    obtain ⟨final, skips⟩ := read_from_gap blankBehind ⟨⟨bracket, start, outside⟩ :: opened, after,
      .operator last⟩ stopBehind
    obtain ⟨whole, closed⟩ := read_from_close bracket start outside
    exact ⟨whole, _, passes.trans (continues.trans (skips.trans closed))⟩

theorem opens_paren {inside : List Char} (blank : Derives .gap chars ('(' :: inside)) :
    Leaves isHeightChar chars ∧ unpadded chars = '(' :: inside := by
  obtain ⟨gap, rfl, gaps⟩ := Derives.gap_iff.1 blank
  refine ⟨?_, List.dropWhile_append_of_pos gaps⟩
  cases gap with
  | nil => simp [Leaves, isHeightChar]
  | cons first gap =>
      have ends : Leaves isHeightChar (first :: gap) := (stops_of_gaps gaps).leaves (by decide)
      simpa [Leaves] using ends

theorem passed_primary (within : ReadsWithin length) (short : chars.length ≤ length)
    (derives : Derives .primary chars rest) (parted : Parted rest) : Passed chars rest := by
  obtain ⟨piece, listed, derives⟩ := Derives.one_of_iff.1 derives
  simp only [List.mem_cons, List.not_mem_nil, or_false] at listed
  intro opened level offset
  rcases listed with rfl | rfl | rfl | rfl | rfl | rfl | rfl
  · obtain ⟨before, behind, word, blank, more⟩ := Derives.spaced_iff.1 (Derives.rule_iff.1 derives)
    obtain ⟨inside, padded, paren, blankInside, list⟩ := Derives.spaced_iff.1 more
    obtain rfl := Derives.text_iff.1 paren
    obtain ⟨spelling, rfl, spelled⟩ := word.word_spelled
    obtain ⟨ends, opens⟩ := opens_paren blank
    have shorter : inside.length < length := by
      have shorter := blank.suffix.length_le
      simp only [List.length_append, List.length_cons, List.length_nil] at short shorter
      omega
    obtain ⟨whole, stop, reads⟩ := read_from_list within (.call _) (by simp) shorter
      blankInside list opened level offset _
    exact ⟨level, whole, stop, (read_from_call (spelled.is_read rfl ends) opens).trans reads⟩
  · obtain ⟨inside, padded, bracket, blankInside, list⟩ :=
      Derives.spaced_iff.1 (Derives.rule_iff.1 derives)
    obtain rfl := Derives.text_iff.1 bracket
    obtain ⟨whole, stop, reads⟩ := read_from_list within .array (by simp) short
      blankInside list opened level offset _
    exact ⟨level, whole, stop, read_from_bracket.trans reads⟩
  · obtain ⟨spelling, width, height, rfl, spelled⟩ := derives.resolution_spelled
    exact ⟨_, _, _, read_from_atom (spelled.is_read rfl parted.1) rfl⟩
  · obtain ⟨spelling, rfl, spelled⟩ := derives.label_spelled
    exact ⟨_, _, _, read_from_atom (spelled.is_read rfl parted.1) rfl⟩
  · obtain ⟨spelling, decimal, rfl, spelled⟩ := derives.number_spelled
    exact ⟨_, _, _, read_from_atom (spelled.is_read rfl parted.1) rfl⟩
  · obtain ⟨spelling, rfl, spelled⟩ := derives.word_spelled
    exact ⟨_, _, _, read_from_name (spelled.is_read rfl parted.1) parted.2⟩
  · obtain ⟨inside, padded, paren, blankInside, more⟩ := Derives.spaced_iff.1 derives
    obtain ⟨before, behind, expression, blank, closes⟩ := Derives.spaced_iff.1 more
    obtain rfl := Derives.text_iff.1 paren
    obtain rfl := Derives.text_iff.1 closes
    have shorter : padded.length < length :=
      Nat.lt_of_le_of_lt blankInside.suffix.length_le short
    have passed := (within padded before shorter expression
      ((parted_closer .group rest).pad blank)).pad blankInside
    obtain ⟨after, last, stop, passes⟩ :=
      passed (⟨.group, offset, level⟩ :: opened) .fresh (offset + 1)
    obtain ⟨final, skips⟩ := read_from_gap blank ⟨⟨.group, offset, level⟩ :: opened, after,
      .operator last⟩ stop
    obtain ⟨whole, closed⟩ := read_from_close .group offset level
    exact ⟨level, whole, _, read_from_paren.trans (passes.trans (skips.trans closed))⟩

theorem passed_operand (within : ReadsWithin length) (short : chars.length ≤ length)
    (derives : Derives .operand chars rest) (parted : Parted rest) : Passed chars rest := by
  obtain ⟨before, behind, signs, blank, primary⟩ := Derives.spaced_iff.1 derives
  have shorter := (blank.suffix.trans signs.suffix).length_le.trans short
  exact ((passed_primary within shorter primary parted).pad blank).signs signs.repeated

theorem passed_behind_minus (within : ReadsWithin length) (short : chars.length ≤ length)
    (derives : Derives .operand ('-' :: chars) rest) (parted : Parted rest) :
    Passed chars rest := by
  obtain ⟨before, behind, signs, blank, primary⟩ := Derives.spaced_iff.1 derives
  cases signs.repeated with
  | done =>
      obtain rfl := Derives.gap_solid rfl blank
      obtain ⟨first, others, begins, isFirst⟩ := primary.primary_head
      cases begins
      exact absurd isFirst (by decide)
  | @again _ padded middle _ gap once others =>
      obtain rfl := Derives.gap_solid rfl gap
      cases Derives.text_iff.1 (Derives.rule_iff.1 once)
      have shorter : behind.length ≤ length :=
        (blank.suffix.trans (Repeated.suffix others)).length_le.trans short
      exact ((passed_primary within shorter primary parted).pad blank).signs others

theorem symbol_head (operator : Operator) :
    ∃ first others, operator.symbol.toList = first :: others ∧ isGap first = false ∧
      isHeightChar first = false ∧ first ≠ '(' := by
  rcases operator with mode | _
  · cases mode <;> exact ⟨_, _, rfl, by decide, by decide, by decide⟩
  · exact ⟨_, _, rfl, by decide, by decide, by decide⟩

theorem parted_link {middle : List Char}
    (derives : Derives (.spaced .anyOperator .operand) chars middle) : Parted chars := by
  obtain ⟨before, behind, symbol, -⟩ := Derives.spaced_iff.1 derives
  obtain ⟨piece, listed, symbol⟩ := Derives.one_of_iff.1 symbol
  obtain ⟨operator, -, rfl⟩ := List.mem_map.1 listed
  obtain rfl := Derives.text_iff.1 (Derives.rule_iff.1 symbol)
  obtain ⟨first, others, begins, solid, ends, noParen⟩ := symbol_head operator
  rw [begins]
  exact .of_solid solid ends noParen _

theorem operand_head {first : Char} {others : List Char} (solid : isGap first = false)
    (derives : Derives .operand (first :: others) rest) :
    first = '-' ∨ isHeightChar first = true ∨ first = '(' ∨ first = '[' := by
  obtain ⟨before, behind, signs, blank, primary⟩ := Derives.spaced_iff.1 derives
  cases signs.repeated with
  | done =>
      obtain rfl := Derives.gap_solid solid blank
      obtain ⟨first, others, begins, isFirst⟩ := primary.primary_head
      cases begins
      exact .inr isFirst
  | again gap once more =>
      obtain rfl := Derives.gap_solid solid gap
      cases Derives.text_iff.1 (Derives.rule_iff.1 once)
      exact .inl rfl

/-- If an operator could be longer, it is `-` in front of another minus sign. Then both are read as
`--` and the operand begins behind them. -/
theorem longer_operator {operator : Operator} {behind : List Char}
    (isLonger : ¬Leaves (extended operator) chars) (blank : Derives .gap chars behind)
    (operand : Derives .operand behind rest) :
    operator = .blend .subtract ∧ behind = chars ∧ ∃ others, chars = '-' :: others := by
  cases chars with
  | nil => exact absurd (by simp [Leaves]) isLonger
  | cons first others =>
      have longer :=
        extended_cases (show extended operator first = true by simpa [Leaves] using isLonger)
      simp only [List.mem_cons, Prod.mk.injEq, List.not_mem_nil, or_false] at longer
      have solid : isGap first = false := by
        rcases longer with ⟨-, rfl⟩ | ⟨-, rfl⟩ | ⟨-, rfl⟩ | ⟨-, rfl⟩ <;> rfl
      obtain rfl := Derives.gap_solid solid blank
      have begins := operand_head solid operand
      rcases longer with ⟨-, rfl⟩ | ⟨rfl, rfl⟩ | ⟨-, rfl⟩ | ⟨-, rfl⟩
      · exact absurd begins (by decide)
      · exact ⟨rfl, rfl, others, rfl⟩
      · exact absurd begins (by decide)
      · exact absurd begins (by decide)

theorem continued_link (within : ReadsWithin length) (short : chars.length ≤ length)
    (derives : Derives (.spaced .anyOperator .operand) chars rest) (parted : Parted rest)
    (opened : List Open) : Continued opened chars rest := by
  obtain ⟨before, behind, symbol, blank, operand⟩ := Derives.spaced_iff.1 derives
  obtain ⟨piece, listed, symbol⟩ := Derives.one_of_iff.1 symbol
  obtain ⟨operator, -, rfl⟩ := List.mem_map.1 listed
  obtain rfl := Derives.text_iff.1 (Derives.rule_iff.1 symbol)
  rw [List.length_append] at short
  intro level latest offset
  by_cases ends : Leaves (extended operator) before
  · have passed := passed_operand within (blank.suffix.length_le.trans (by omega)) operand parted
    obtain ⟨after, last, stop, passes⟩ :=
      passed.pad blank opened (level.extend latest operator)
        (offset + operator.symbol.toList.length)
    have isRead := (Spelling.operator operator).is_read rfl ends
    exact ⟨after, last, stop, (read_from_operator isRead).trans passes⟩
  · obtain ⟨rfl, rfl, others, rfl⟩ := longer_operator ends blank operand
    have shorter : others.length ≤ length := by
      rw [List.length_cons] at short
      omega
    have ends : Leaves (extended (.blend .subtractWithAlpha)) others := by
      intro char _
      rw [Bool.eq_false_iff]
      intro isLonger
      exact absurd (extended_cases isLonger) (by simp)
    obtain ⟨after, last, stop, passes⟩ := passed_behind_minus within shorter operand parted opened
      (level.extend latest (.blend .subtractWithAlpha)) (offset + 2)
    have isRead := (Spelling.operator (.blend .subtractWithAlpha)).is_read rfl ends
    exact ⟨after, last, stop, (read_from_operator isRead).trans passes⟩

theorem passed_expression (within : ReadsWithin length) (short : chars.length ≤ length)
    (derives : Derives (.rule .expression) chars rest) (parted : Parted rest) :
    Passed chars rest := by
  obtain ⟨before, behind, operand, blank, more⟩ :=
    Derives.spaced_iff.1 (Derives.rule_iff.1 derives)
  have repeats := more.repeated
  have partedBehind := parted.repeated (fun _ _ => parted_link) repeats
  have shortBehind := (blank.suffix.trans operand.suffix).length_le.trans short
  have passed := passed_operand within short operand (partedBehind.pad blank)
  intro opened level offset
  have continued := Continued.pad (Continued.repeated opened parted
    (fun _ _ => parted_link) (fun _ _ shorter once parted =>
      continued_link within (shorter.trans shortBehind) once parted opened) repeats) blank
  obtain ⟨between, inner, stop, passes⟩ := passed opened level offset
  obtain ⟨after, last, final, continues⟩ := continued between inner stop
  exact ⟨after, last, final, passes.trans continues⟩

theorem reads_within (length : Nat) : ReadsWithin length := by
  induction length with
  | zero => exact fun chars rest short => absurd short (Nat.not_lt_zero _)
  | succ length within =>
      intro chars rest short derives parted
      exact passed_expression within (Nat.le_of_lt_succ short) derives parted

end State

/-- Every text that is derivable is read. -/
theorem read_of_derives {chars : List Char} (derives : Derives (.rule .input) chars []) :
    ∃ expression, readChars chars = .ok expression := by
  obtain ⟨padded, blank, more⟩ := Derives.both_iff.1 (Derives.rule_iff.1 derives)
  obtain ⟨before, behind, expression, blankBehind, last⟩ := Derives.spaced_iff.1 more
  obtain ⟨rfl, -⟩ := Derives.ended_iff.1 (Derives.rule_iff.1 last)
  have parted : Parted [] := ⟨by simp [Leaves], by simp [unpadded]⟩
  have passed := State.reads_within _ padded before (Nat.lt_succ_self _) expression
    (parted.pad blankBehind)
  obtain ⟨after, latest, stop, passes⟩ := passed.pad blank [] .fresh 0
  obtain ⟨final, skips⟩ := State.read_from_gap blankBehind ⟨[], after, .operator latest⟩ stop
  exact ⟨after.chain latest, passes.trans (skips.trans State.read_from_end)⟩

end ImageGraph.Expr
