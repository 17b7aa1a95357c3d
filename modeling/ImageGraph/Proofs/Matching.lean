import ImageGraph.Proofs.Progress
import ImageGraph.Proofs.Rules

/-!
Runs of the rules on single tokens. A rule for a token matches what is read as that token. Else it
is tried in vain where it stands, and nothing is tried further on.
-/

set_option autoImplicit false

namespace ImageGraph.Expr

open Token

namespace Attempts

/-- Rules have been tried in vain at a place. Only the furthest place counts. -/
def record (attempts : Attempts) (offset : Nat) (rules : List Rule) : Attempts :=
  if attempts.furthest < offset then ⟨offset, rules⟩
  else if attempts.furthest = offset then ⟨offset, attempts.rules ++ rules⟩
  else attempts

variable {attempts : Attempts} {offset : Nat}

theorem record_beyond (early : attempts.furthest < offset) (rules : List Rule) :
    attempts.record offset rules = ⟨offset, rules⟩ := if_pos early

theorem record_before (late : offset < attempts.furthest) (rules : List Rule) :
    attempts.record offset rules = attempts := by
  unfold record
  rw [if_neg (by omega), if_neg (by omega)]

theorem record_record (attempts : Attempts) (offset : Nat) (rules more : List Rule) :
    (attempts.record offset rules).record offset more = attempts.record offset (rules ++ more) := by
  unfold record
  split
  · simp
  · split
    · simp
    · rfl

theorem furthest_record (attempts : Attempts) (offset : Nat) (rules : List Rule) :
    (attempts.record offset rules).furthest = max attempts.furthest offset := by
  unfold record
  split
  · simp only
    omega
  · split
    · simp only
      omega
    · omega

theorem miss_before (late : offset < attempts.furthest) (rule : Rule) (before : Nat) :
    attempts.miss rule offset before = attempts := by
  have different : attempts.furthest ≠ offset := by omega
  unfold miss count
  rw [if_neg different, if_neg (Nat.succ_ne_zero before).symm, if_neg different, if_neg (by omega)]

theorem miss_alone (attempts : Attempts) (rule : Rule) (offset : Nat) :
    attempts.miss rule offset (attempts.count offset) = attempts.record offset [rule] := by
  unfold miss count record
  rw [if_neg (by omega)]
  grind

theorem miss_single (attempts : Attempts) (rule child : Rule) (offset : Nat) :
    (attempts.record offset [child]).miss rule offset (attempts.count offset) =
      attempts.record offset [child] := by
  unfold miss count record
  grind

theorem miss_many {rules : List Rule} (many : rules.length ≠ 1) (attempts : Attempts) (rule : Rule)
    (offset : Nat) :
    (attempts.record offset rules).miss rule offset (attempts.count offset) =
      attempts.record offset [rule] := by
  unfold miss count record
  grind

end Attempts

/-- A piece matches a spelling in front of a text, and tries nothing that counts. -/
def Piece.Takes (piece : Piece) (spelling behind : List Char) : Prop :=
  ∀ offset attempts, Runs piece offset (spelling ++ behind) attempts
    (.matched (offset + spelling.length) behind attempts)

/-- A piece does not match, and tries nothing that counts. -/
def Piece.Avoids (piece : Piece) (chars : List Char) : Prop :=
  ∀ offset attempts, Runs piece offset chars attempts (.failed attempts)

/-- A piece does not match, and is tried in vain as these rules. -/
def Piece.Misses (piece : Piece) (chars : List Char) (rules : List Rule) : Prop :=
  ∀ offset attempts, Runs piece offset chars attempts (.failed (attempts.record offset rules))

namespace Piece

variable {piece other : Piece} {name : Rule} {rules : List Rule} {keep : Char → Bool}
  {spelling more chars behind : List Char}

theorem Takes.both (takes : piece.Takes spelling (more ++ behind))
    (takesMore : other.Takes more behind) : (both piece other).Takes (spelling ++ more) behind := by
  intro offset attempts
  rw [List.append_assoc, List.length_append, ← Nat.add_assoc]
  exact .both (takes offset attempts) (takesMore _ attempts)

theorem Takes.rule (takes : name.body.Takes spelling behind) :
    (Piece.rule name).Takes spelling behind :=
  fun offset attempts => .rule (takes offset attempts)

theorem Takes.first (takes : piece.Takes spelling behind) :
    (either piece other).Takes spelling behind :=
  fun offset attempts => .first (takes offset attempts)

theorem Takes.second (avoids : piece.Avoids (spelling ++ behind))
    (takes : other.Takes spelling behind) : (either piece other).Takes spelling behind :=
  fun offset attempts => .second (avoids offset attempts) (takes offset attempts)

theorem Takes.some (takes : piece.Takes spelling behind) : (maybe piece).Takes spelling behind :=
  fun offset attempts => .some (takes offset attempts)

theorem Takes.none (avoids : piece.Avoids behind) : (maybe piece).Takes [] behind :=
  fun offset attempts => .none (avoids offset attempts)

theorem Avoids.both (avoids : piece.Avoids chars) : (Piece.both piece other).Avoids chars :=
  fun offset attempts => .notFirst (avoids offset attempts)

theorem Takes.avoids_both (takes : piece.Takes spelling behind) (avoids : other.Avoids behind) :
    (Piece.both piece other).Avoids (spelling ++ behind) :=
  fun offset attempts => .both (takes offset attempts) (avoids _ attempts)

theorem Avoids.either (avoids : piece.Avoids chars) (avoidsOther : other.Avoids chars) :
    (Piece.either piece other).Avoids chars :=
  fun offset attempts => .second (avoids offset attempts) (avoidsOther offset attempts)

theorem Misses.rule (avoids : name.body.Avoids chars) : (Piece.rule name).Misses chars [name] := by
  intro offset attempts
  rw [← Attempts.miss_alone]
  exact .otherRule (avoids offset attempts)

theorem Misses.rule_single {child : Rule} (misses : name.body.Misses chars [child]) :
    (Piece.rule name).Misses chars [child] := by
  intro offset attempts
  have missed := Runs.otherRule (misses offset attempts)
  rwa [Attempts.miss_single] at missed

theorem Misses.both (misses : piece.Misses chars rules) :
    (Piece.both piece other).Misses chars rules :=
  fun offset attempts => .notFirst (misses offset attempts)

theorem Misses.either {others : List Rule} (misses : piece.Misses chars rules)
    (missesOther : other.Misses chars others) :
    (Piece.either piece other).Misses chars (rules ++ others) := by
  intro offset attempts
  rw [← Attempts.record_record]
  exact .second (misses offset attempts) (missesOther offset _)

theorem takes_one {char : Char} (kept : keep char = true) (ascii : char.utf8Size = 1) :
    (one keep).Takes [char] behind := by
  intro offset attempts
  have matched := Runs.one offset behind attempts kept
  rwa [ascii] at matched

theorem avoids_one (leaves : Leaves keep behind) : (one keep).Avoids behind := by
  intro offset attempts
  refine .otherOne offset attempts ?_
  cases behind with
  | nil => rfl
  | cons char behind => exact leaves char rfl

theorem takes_text {symbol : List Char} (ascii : byteCount symbol = symbol.length) :
    (text symbol).Takes symbol behind := by
  intro offset attempts
  rw [← ascii]
  exact .text offset behind attempts

theorem takes_absent (none : behind.head?.any keep = false) : (absent keep).Takes [] behind :=
  fun offset attempts => .absent offset attempts none

theorem avoids_absent (some : behind.head?.any keep = true) : (absent keep).Avoids behind :=
  fun offset attempts => .present offset attempts some

theorem avoids_text {symbol : List Char} (other : ¬symbol <+: chars) :
    (text symbol).Avoids chars :=
  fun offset attempts => .otherText offset attempts other

theorem takes_star (takes : ∀ char behind, keep char = true → piece.Takes [char] behind)
    (avoids : ∀ behind, Leaves keep behind → piece.Avoids behind) (chars : List Char) :
    (star piece).Takes (chars.takeWhile keep) (chars.dropWhile keep) := by
  intro offset attempts
  rw [List.takeWhile_append_dropWhile]
  induction chars generalizing offset with
  | nil => exact .stop (avoids [] (by simp [Leaves]) offset attempts)
  | cons char chars induction =>
      cases kept : keep char with
      | true =>
          simp only [List.takeWhile_cons, List.dropWhile_cons, kept, if_true, List.length_cons]
          have further := Runs.further (takes char chars kept offset attempts) (induction _)
          rwa [List.length_singleton, Nat.add_assoc, Nat.add_comm 1] at further
      | false =>
          simp only [List.takeWhile_cons, List.dropWhile_cons, kept]
          exact .stop (avoids _ (by simpa [Leaves] using kept) offset attempts)

end Piece

theorem size_of_ascii {char : Char} (ascii : char.toNat ≤ 127) : char.utf8Size = 1 :=
  Char.utf8Size_eq_one_iff.2 (UInt32.le_iff_toNat_le.2 ascii)

theorem size_of_height {char : Char} (kept : isHeightChar char = true) : char.utf8Size = 1 := by
  have code := code_of_height kept
  exact size_of_ascii (by omega)

theorem size_of_gap {char : Char} (gap : isGap char = true) : char.utf8Size = 1 := by
  rcases Bool.or_eq_true_iff.1 gap with space | tab
  · rw [beq_iff_eq.1 space]
    rfl
  · rw [beq_iff_eq.1 tab]
    rfl

namespace Piece

variable {spelling chars rest behind : List Char} {first : Char} {token : Token}

theorem takes_chars {keep : Char → Bool}
    (narrower : ∀ char, keep char = true → isHeightChar char = true) (chars : List Char) :
    (star (one keep)).Takes (chars.takeWhile keep) (chars.dropWhile keep) :=
  takes_star (fun char _ kept => takes_one kept (size_of_height (narrower char kept)))
    (fun _ => avoids_one) chars

theorem takes_gap (chars : List Char) : gap.Takes (chars.takeWhile isGap) (unpadded chars) :=
  takes_star (fun _ _ kept => takes_one kept (size_of_gap kept)) (fun _ => avoids_one) chars

theorem takes_word (start : isWordStart first = true) (rest : List Char) :
    (rule .word).Takes (first :: rest.takeWhile isWordChar) (rest.dropWhile isWordChar) :=
  .rule (.both (takes_one start (size_of_height (height_of_start start)))
    (takes_chars (fun _ => height_of_word) rest))

theorem misses_word (leaves : Leaves isWordStart chars) : (rule .word).Misses chars [.word] :=
  .rule (.both (avoids_one leaves))

theorem takes_minus : (rule .minus).Takes ['-'] behind := .rule (takes_text rfl)

theorem misses_minus (other : chars.head? ≠ some '-') : (rule .minus).Misses chars [.minus] := by
  refine .rule (avoids_text ?_)
  rintro ⟨rest, rfl⟩
  exact other rfl

theorem takes_symbol (operator : Operator) :
    (rule (.symbol operator)).Takes operator.symbol.toList behind := by
  refine .rule (takes_text ?_)
  rcases operator with mode | _
  · cases mode <;> rfl
  · rfl

theorem misses_symbol {operator : Operator}
    (other : operator.symbol.toList.isPrefixOf chars = false) :
    (rule (.symbol operator)).Misses chars [.symbol operator] := by
  refine .rule (avoids_text ?_)
  rw [← List.isPrefixOf_iff_prefix, other]
  decide

theorem takes_digits (digit : first.isDigit = true) (rest : List Char) :
    digits.Takes ((first :: rest).takeWhile Char.isDigit)
      ((first :: rest).dropWhile Char.isDigit) := by
  simp only [List.takeWhile_cons, List.dropWhile_cons, digit, if_true]
  exact .both (takes_one digit (size_of_height (height_of_digit digit)))
    (takes_chars (fun _ => height_of_digit) rest)

theorem avoids_digits (leaves : Leaves Char.isDigit chars) : digits.Avoids chars :=
  .both (avoids_one leaves)

theorem takes_width (digit : first.isDigit = true) (rest : List Char) :
    (rule .width).Takes ((first :: rest).takeWhile isWidthChar)
      ((first :: rest).dropWhile isWidthChar) := by
  simp only [List.takeWhile_cons, List.dropWhile_cons, width_of_digit digit, if_true]
  refine .rule (.both (takes_one digit (size_of_height (height_of_digit digit)))
    (takes_star ?_ ?_ rest))
  · intro char behind kept offset attempts
    have parts := Bool.and_eq_true_iff.1 kept
    refine .both (.absent offset attempts ?_)
      (takes_one parts.2 (size_of_height (height_of_width kept)) offset attempts)
    simpa using parts.1
  · intro behind leaves
    cases behind with
    | nil => exact (takes_absent rfl).avoids_both (avoids_one (by simp [Leaves]))
    | cons char more =>
        have refused := leaves char rfl
        by_cases isX : char = 'x'
        · exact .both (avoids_absent (by simp [isX]))
        · refine (takes_absent (by simp [isX])).avoids_both (avoids_one ?_)
          simpa [isWidthChar, isX, Leaves] using refused

theorem misses_width (leaves : Leaves Char.isDigit chars) : (rule .width).Misses chars [.width] :=
  .rule (.both (avoids_one leaves))

theorem takes_height (chars : List Char) :
    (rule .height).Takes (chars.takeWhile isHeightChar) (chars.dropWhile isHeightChar) :=
  .rule (takes_chars (fun _ kept => kept) chars)

theorem takes_resolution (digit : first.isDigit = true)
    (found : resolution? (first :: rest) = some (token, behind)) :
    ∃ spelling, first :: rest = spelling ++ behind ∧ (rule .resolution).Takes spelling behind := by
  have parts := List.takeWhile_append_dropWhile (p := isWidthChar) (l := first :: rest)
  unfold resolution? at found
  split at found
  · rename_i more separator
    cases found
    have width := takes_width digit rest
    rw [separator] at parts width
    have heights := List.takeWhile_append_dropWhile (p := isHeightChar) (l := more)
    refine ⟨(first :: rest).takeWhile isWidthChar ++ (['x'] ++ more.takeWhile isHeightChar), ?_,
      .rule (.both ?_ (.both (takes_text rfl) (takes_height more)))⟩
    · rw [List.append_assoc, List.append_assoc, heights]
      exact parts.symm
    · rw [List.append_assoc, heights]
      exact width
  · cases found

theorem misses_resolution (digit : first.isDigit = true)
    (none : resolution? (first :: rest) = none) :
    (rule .resolution).Misses (first :: rest) [.resolution] := by
  have noX : ¬['x'] <+: (first :: rest).dropWhile isWidthChar := by
    rintro ⟨more, begins⟩
    simp [resolution?, ← begins] at none
  have avoids : (Rule.body .resolution).Avoids _ :=
    (takes_width digit rest).avoids_both (.both (avoids_text noX))
  rw [List.takeWhile_append_dropWhile] at avoids
  exact .rule avoids

theorem misses_resolution_width (leaves : Leaves Char.isDigit chars) :
    (rule .resolution).Misses chars [.width] :=
  .rule_single (.both (misses_width leaves))

theorem size_of_final (isFinal : (first == 'p' || first == 'k') = true) : first.utf8Size = 1 := by
  rcases Bool.or_eq_true_iff.1 isFinal with isP | isK
  · rw [beq_iff_eq.1 isP]
    rfl
  · rw [beq_iff_eq.1 isK]
    rfl

theorem takes_label (digit : first.isDigit = true)
    (found : label? (first :: rest) = some (token, behind)) :
    ∃ spelling, first :: rest = spelling ++ behind ∧ (rule .label).Takes spelling behind := by
  have parts := List.takeWhile_append_dropWhile (p := Char.isDigit) (l := first :: rest)
  have digits := takes_digits digit rest
  unfold label? at found
  split at found
  · rename_i final more separator
    split at found
    · rename_i isLabel
      cases found
      obtain ⟨isFinal, ends⟩ := Bool.and_eq_true_iff.1 isLabel
      rw [separator] at parts digits
      refine ⟨(first :: rest).takeWhile Char.isDigit ++ ([final] ++ []), ?_,
        .rule (.both digits (.both (takes_one isFinal (size_of_final isFinal)) (takes_absent ?_)))⟩
      · simpa using parts.symm
      · simpa using ends
    · cases found
  · cases found

theorem misses_label (digit : first.isDigit = true) (none : label? (first :: rest) = none) :
    (rule .label).Misses (first :: rest) [.label] := by
  have noFinal : (both (one fun char => char == 'p' || char == 'k') (absent isWordChar)).Avoids
      ((first :: rest).dropWhile Char.isDigit) := by
    unfold label? at none
    split at none
    · rename_i final more separator
      rw [separator]
      cases isFinal : final == 'p' || final == 'k' with
      | true =>
          refine Takes.avoids_both (takes_one isFinal (size_of_final isFinal)) (avoids_absent ?_)
          simpa [isFinal] using none
      | false => exact .both (avoids_one (by simpa [Leaves] using isFinal))
    · rename_i separator
      rw [separator]
      exact .both (avoids_one (by simp [Leaves]))
  have avoids : (Rule.body .label).Avoids _ := (takes_digits digit rest).avoids_both noFinal
  rw [List.takeWhile_append_dropWhile] at avoids
  exact .rule avoids

theorem misses_label_digit (leaves : Leaves Char.isDigit chars) :
    (rule .label).Misses chars [.label] :=
  .rule (.both (avoids_digits leaves))

theorem takes_point : (text ['.']).Takes ['.'] behind := takes_text rfl

theorem takes_number (digit : first.isDigit = true) (rest : List Char) :
    ∃ spelling, first :: rest = spelling ++ (number? (first :: rest)).2 ∧
      (rule .number).Takes spelling (number? (first :: rest)).2 := by
  have parts := List.takeWhile_append_dropWhile (p := Char.isDigit) (l := first :: rest)
  have digits := takes_digits digit rest
  unfold number?
  split
  · rename_i more point
    have fractions := List.takeWhile_append_dropWhile (p := Char.isDigit) (l := more)
    rw [point] at parts digits
    refine ⟨(first :: rest).takeWhile Char.isDigit ++ (['.'] ++ more.takeWhile Char.isDigit), ?_,
      .rule (.first (.both ?_ (.some (.both takes_point
        (takes_chars (fun _ => height_of_digit) more)))))⟩
    · rw [List.append_assoc, List.append_assoc, fractions]
      exact parts.symm
    · rw [List.append_assoc, fractions]
      exact digits
  · rename_i noPoint
    refine ⟨(first :: rest).takeWhile Char.isDigit ++ [], by simp,
      .rule (.first (.both digits (.none (.both (avoids_text ?_)))))⟩
    rintro ⟨more, begins⟩
    exact noPoint more begins.symm

theorem takes_fraction (digit : first.isDigit = true) (rest : List Char) :
    (rule .number).Takes ('.' :: (first :: rest).takeWhile Char.isDigit)
      ((first :: rest).dropWhile Char.isDigit) := by
  have fraction := Takes.both (takes_point) (takes_digits digit rest)
  exact .rule (.second (.both (avoids_digits (by simp [Leaves]))) fraction)

theorem misses_number (leaves : Leaves Char.isDigit chars)
    (noFraction : ∀ rest, chars = '.' :: rest → Leaves Char.isDigit rest) :
    (rule .number).Misses chars [.number] := by
  refine .rule (.either (.both (avoids_digits leaves)) ?_)
  by_cases point : ['.'] <+: chars
  · obtain ⟨rest, rfl⟩ := point
    exact Takes.avoids_both (takes_text rfl) (avoids_digits (noFraction rest rfl))
  · exact .both (avoids_text point)

/-- The first operator that fits is taken. Only those before it are tried in vain. -/
theorem runs_any_of {operators : List Operator} {operator : Operator}
    (found : operators.find? (·.symbol.toList.isPrefixOf (operator.symbol.toList ++ behind)) =
      some operator) (offset : Nat) (attempts : Attempts) :
    ∃ after, after.furthest ≤ max attempts.furthest offset ∧
      Runs (oneOf (operators.map fun operator => rule (.symbol operator))) offset
        (operator.symbol.toList ++ behind) attempts
        (.matched (offset + operator.symbol.toList.length) behind after) := by
  induction operators generalizing attempts with
  | nil => cases found
  | cons first others induction =>
      rw [List.find?_cons] at found
      cases fits : first.symbol.toList.isPrefixOf (operator.symbol.toList ++ behind) with
      | true =>
          rw [fits] at found
          cases found
          have taken : Runs _ offset (operator.symbol.toList ++ behind) attempts _ :=
            takes_symbol operator offset attempts
          refine ⟨attempts, by omega, ?_⟩
          cases others with
          | nil => exact taken
          | cons second others => exact .first taken
      | false =>
          rw [fits] at found
          have misses := misses_symbol fits
          obtain ⟨after, early, taken⟩ := induction found (attempts.record offset [.symbol first])
          rw [Attempts.furthest_record] at early
          refine ⟨after, by omega, ?_⟩
          cases others with
          | nil => cases found
          | cons second others => exact .second (misses offset attempts) taken

theorem misses_any_of {operators : List Operator} (some : operators ≠ [])
    (none : operators.find? (·.symbol.toList.isPrefixOf chars) = none) :
    (oneOf (operators.map fun operator => rule (.symbol operator))).Misses chars
      (operators.map .symbol) := by
  induction operators with
  | nil => exact absurd rfl some
  | cons first others induction =>
      rw [List.find?_cons] at none
      cases fits : first.symbol.toList.isPrefixOf chars with
      | true =>
          rw [fits] at none
          cases none
      | false =>
          rw [fits] at none
          cases others with
          | nil => exact misses_symbol fits
          | cons second others => exact .either (misses_symbol fits) (induction (by simp) none)

theorem runs_any_operator {operator : Operator}
    (found : operator? chars = some (.operator operator, behind)) (offset : Nat)
    (attempts : Attempts) :
    ∃ after, after.furthest ≤ max attempts.furthest offset ∧
      Runs anyOperator offset chars attempts
        (.matched (offset + operator.symbol.toList.length) behind after) := by
  have parts := operator_parts found
  obtain ⟨candidate, first, same⟩ := Option.map_eq_some_iff.1 found
  obtain rfl : candidate = operator := (Token.operator.inj (Prod.mk.inj same).1)
  rw [parts] at first ⊢
  exact runs_any_of first offset attempts

theorem misses_any_operator (none : operator? chars = none) :
    anyOperator.Misses chars (Operator.all.map .symbol) :=
  misses_any_of (by decide) (Option.map_eq_none_iff.1 none)

end Piece

theorem unpadded_of_solid {chars : List Char} (solid : Leaves isGap chars) :
    unpadded chars = chars :=
  solid.drop

theorem blanks_of_solid {chars : List Char} (solid : Leaves isGap chars) : blanks chars = 0 :=
  congrArg List.length solid.take

theorem Runs.le_stop {piece : Piece} {offset stop : Nat} {chars rest : List Char}
    {attempts after : Attempts}
    (runs : Runs piece offset chars attempts (.matched stop rest after)) :
    offset ≤ stop := by
  generalize isEnding : Ending.matched stop rest after = ending at runs
  induction runs generalizing stop rest after with
  | text | one => cases isEnding; exact Nat.le_add_right _ _
  | absent | ended => cases isEnding; exact Nat.le_refl _
  | rule body induction => cases isEnding; exact induction rfl
  | both before behind beforeInduction behindInduction =>
      exact Nat.le_trans (beforeInduction rfl) (behindInduction isEnding)
  | first taken induction => exact induction isEnding
  | second refused taken refusedInduction takenInduction => exact takenInduction isEnding
  | some taken induction => exact induction isEnding
  | none => cases isEnding; exact Nat.le_refl _
  | further once again onceInduction againInduction =>
      exact Nat.le_trans (onceInduction rfl) (againInduction isEnding)
  | stop => cases isEnding; exact Nat.le_refl _
  | otherText | otherOne | present | more | otherRule | notFirst => cases isEnding

theorem Runs.star_matches {piece : Piece} {offset : Nat} {chars : List Char}
    {attempts after : Attempts} : ¬Runs (.star piece) offset chars attempts (.failed after) := by
  intro runs
  generalize isStar : Piece.star piece = repeated at runs
  generalize isEnding : Ending.failed after = ending at runs
  induction runs with
  | further once again onceInduction againInduction => exact againInduction isStar isEnding
  | stop => cases isEnding
  | _ => cases isStar

/-- A piece matches, and behind it and the blanks that follow there is the rest of the text. -/
def Ends (piece : Piece) (offset : Nat) (chars : List Char) (attempts : Attempts) (stop : Nat)
    (rest : List Char) (after : Attempts) : Prop :=
  ∃ middle behind, Runs piece offset chars attempts (.matched middle behind after) ∧
    middle + blanks behind = stop ∧ unpadded behind = rest

theorem runs_gap (offset : Nat) (chars : List Char) (attempts : Attempts) :
    Runs .gap offset chars attempts
      (.matched (offset + blanks chars) (unpadded chars) attempts) := by
  have runs := Piece.takes_gap chars offset attempts
  rwa [unpadded, List.takeWhile_append_dropWhile] at runs

namespace Ends

variable {piece other : Piece} {name : Rule} {offset stop final : Nat}
  {chars spelling behind rest left : List Char} {attempts after last : Attempts} {ending : Ending}

theorem of_takes (takes : piece.Takes spelling behind) (offset : Nat) (attempts : Attempts) :
    Ends piece offset (spelling ++ behind) attempts (offset + spelling.length + blanks behind)
      (unpadded behind) attempts :=
  ⟨_, _, takes offset attempts, rfl, rfl⟩

theorem spaced_runs (ends : Ends piece offset chars attempts stop rest after)
    (runs : Runs other stop rest after ending) :
    Runs (.spaced piece other) offset chars attempts ending := by
  obtain ⟨middle, behind, matched, rfl, rfl⟩ := ends
  exact .both matched (.both (runs_gap middle behind after) runs)

theorem spaced (ends : Ends piece offset chars attempts stop rest after)
    (more : Ends other stop rest after final left last) :
    Ends (.spaced piece other) offset chars attempts final left last := by
  obtain ⟨middle, behind, matched, rfl, rfl⟩ := more
  exact ⟨middle, behind, ends.spaced_runs matched, rfl, rfl⟩

theorem rule (ends : Ends name.body offset chars attempts stop rest after) :
    Ends (.rule name) offset chars attempts stop rest after := by
  obtain ⟨middle, behind, matched, rfl, rfl⟩ := ends
  exact ⟨middle, behind, .rule matched, rfl, rfl⟩

theorem some (ends : Ends piece offset chars attempts stop rest after) :
    Ends (.maybe piece) offset chars attempts stop rest after := by
  obtain ⟨middle, behind, matched, rfl, rfl⟩ := ends
  exact ⟨middle, behind, .some matched, rfl, rfl⟩

theorem none (solid : Leaves isGap chars)
    (refused : Runs piece offset chars attempts (.failed after)) :
    Ends (.maybe piece) offset chars attempts offset chars after :=
  ⟨offset, chars, .none refused, by rw [blanks_of_solid solid, Nat.add_zero],
    unpadded_of_solid solid⟩

theorem solid (ends : Ends piece offset chars attempts stop rest after) : Leaves isGap rest := by
  obtain ⟨middle, behind, matched, rfl, rfl⟩ := ends
  exact unpadded_solid behind

theorem le_stop (ends : Ends piece offset chars attempts stop rest after) : offset ≤ stop := by
  obtain ⟨middle, behind, matched, rfl, rfl⟩ := ends
  exact Nat.le_trans matched.le_stop (Nat.le_add_right _ _)

theorem spaced_none (ends : Ends piece offset chars attempts stop rest after)
    (refused : Runs other stop rest after (.failed last)) :
    Ends (.spaced piece (.spacedStar other)) offset chars attempts stop rest last :=
  ends.spaced (none ends.solid (.notFirst refused))

theorem star_stop
    (refused : Runs piece (offset + blanks chars) (unpadded chars) attempts (.failed after)) :
    Ends (.star (.both .gap piece)) offset chars attempts (offset + blanks chars) (unpadded chars)
      after :=
  ⟨offset, chars, .stop (.both (runs_gap offset chars attempts) refused), rfl, rfl⟩

theorem star_further
    (once : Runs piece (offset + blanks chars) (unpadded chars) attempts (.matched stop rest after))
    (again : Ends (.star (.both .gap piece)) stop rest after final left last) :
    Ends (.star (.both .gap piece)) offset chars attempts final left last := by
  obtain ⟨middle, behind, matched, rfl, rfl⟩ := again
  exact ⟨middle, behind, .further (.both (runs_gap offset chars attempts) once) matched, rfl, rfl⟩

theorem spaced_star (ends : Ends (.star (.both .gap piece)) offset chars attempts final left last) :
    Ends (.spacedStar piece) (offset + blanks chars) (unpadded chars) attempts final left last := by
  obtain ⟨middle, behind, matched, rfl, rfl⟩ := ends
  cases matched with
  | further once again =>
      cases once with
      | both gap once =>
          cases (runs_gap offset chars attempts).deterministic gap
          exact ⟨middle, behind, .some (.both once again), rfl, rfl⟩
  | stop refused =>
      cases refused with
      | both gap refused =>
          cases (runs_gap offset chars attempts).deterministic gap
          have solid := unpadded_solid chars
          exact none solid (.notFirst refused)
      | notFirst gap => exact absurd gap Runs.star_matches

end Ends

/-- A minus sign in front of an operand belongs to it. -/
theorem runs_behind_minus {offset : Nat} {chars : List Char} {attempts : Attempts} {ending : Ending}
    (runs : Runs .operand (offset + 1 + blanks chars) (unpadded chars) attempts ending) :
    Runs .operand offset ('-' :: chars) attempts ending := by
  have minus : Runs (.rule .minus) offset ('-' :: chars) attempts
      (.matched (offset + 1) chars attempts) :=
    Piece.takes_minus offset attempts
  have gap := runs_gap (offset + 1) chars attempts
  cases runs with
  | both signs primary =>
      cases signs with
      | some taken =>
          cases taken with
          | both first others =>
              exact .both (.some (.both minus (.further (.both gap first) others))) primary
      | none refused =>
          cases refused with
          | both first others => exact absurd others Runs.star_matches
          | notFirst first =>
              rename_i after
              have again := runs_gap (offset + 1) chars after
              have solid := unpadded_solid chars
              have none := runs_gap (offset + 1 + blanks chars) (unpadded chars) after
              rw [blanks_of_solid solid, unpadded_of_solid solid] at none
              refine .both (.some (.both minus (.stop (.both gap first)))) ?_
              cases primary with
              | both blank primary =>
                  cases none.deterministic blank
                  exact .both again primary
              | notFirst blank => exact absurd blank Runs.star_matches
  | notFirst signs => cases signs

theorem runs_without_minus {offset : Nat} {chars : List Char} {attempts : Attempts}
    {ending : Ending} (solid : Leaves isGap chars) (unsigned : chars.head? ≠ some '-')
    (runs : Runs .primary offset chars (attempts.record offset [.minus]) ending) :
    Runs .operand offset chars attempts ending := by
  have gap := runs_gap offset chars (attempts.record offset [.minus])
  rw [blanks_of_solid solid, unpadded_of_solid solid] at gap
  exact .both (.none (.notFirst (Piece.misses_minus unsigned offset attempts))) (.both gap runs)

end ImageGraph.Expr
