import ImageGraph.Proofs.Agreement

/-!
Choices between operands, run as a program, agree with the reader. The alternatives in front of the
one that fits fail where they begin. Only a call and an array can fail further on, and then the
others leave no trace, because they are tried in vain where the call or the array began.
-/

set_option autoImplicit false

namespace ImageGraph.Expr

open Token State

/-- A piece does not match, and tries nothing further on. If something has been tried further on
before, nothing changes. -/
def Piece.Idles (piece : Piece) (chars : List Char) : Prop :=
  ∀ offset attempts, ∃ after : Attempts, after.furthest ≤ max attempts.furthest offset ∧
    (offset < attempts.furthest → after = attempts) ∧
      Runs piece offset chars attempts (.failed after)

theorem Runs.rule_beyond {name : Rule} {offset : Nat} {chars : List Char}
    {attempts after : Attempts}
    (runs : Runs name.body offset chars attempts (.failed after)) (late : offset < after.furthest) :
    Runs (.rule name) offset chars attempts (.failed after) := by
  have refused := Runs.otherRule runs
  rwa [Attempts.miss_before late] at refused

namespace Piece

variable {piece other : Piece} {rules : List Rule} {chars rest : List Char} {first : Char}
  {offset stop : Nat} {attempts after : Attempts} {ending : Ending}

theorem Misses.idles (misses : piece.Misses chars rules) : piece.Idles chars :=
  fun offset attempts => ⟨_, Nat.le_of_eq (Attempts.furthest_record attempts offset rules),
    fun late => Attempts.record_before late rules, misses offset attempts⟩

theorem Misses.either_avoids (misses : piece.Misses chars rules) (avoids : other.Avoids chars) :
    (Piece.either piece other).Misses chars rules :=
  fun offset attempts => .second (misses offset attempts) (avoids offset _)

theorem Misses.rule_many {name : Rule} (many : rules.length ≠ 1)
    (misses : name.body.Misses chars rules) : (Piece.rule name).Misses chars [name] := by
  intro offset attempts
  rw [← Attempts.miss_many many]
  exact .otherRule (misses offset attempts)

theorem runs_first (others : List Piece)
    (runs : Runs piece offset chars attempts (.matched stop rest after)) :
    Runs (oneOf (piece :: others)) offset chars attempts (.matched stop rest after) := by
  cases others with
  | nil => exact runs
  | cons second others => exact .first runs

theorem runs_second {others : List Piece} (some : others ≠ [])
    (refused : Runs piece offset chars attempts (.failed after))
    (runs : Runs (oneOf others) offset chars after ending) :
    Runs (oneOf (piece :: others)) offset chars attempts ending := by
  cases others with
  | nil => exact absurd rfl some
  | cons second others => exact .second refused runs

theorem runs_behind (front : List Piece) {back : List Piece} (some : back ≠ [])
    (idle : ∀ piece ∈ front, piece.Idles chars) (offset : Nat) (attempts : Attempts) :
    ∃ after : Attempts, after.furthest ≤ max attempts.furthest offset ∧
      (offset < attempts.furthest → after = attempts) ∧
        ∀ ending, Runs (oneOf back) offset chars after ending →
          Runs (oneOf (front ++ back)) offset chars attempts ending := by
  induction front generalizing attempts with
  | nil => exact ⟨attempts, Nat.le_max_left _ _, fun _ => rfl, fun _ runs => runs⟩
  | cons piece front induction =>
      obtain ⟨idles, others⟩ := List.forall_mem_cons.1 idle
      obtain ⟨between, early, kept, refused⟩ := idles offset attempts
      obtain ⟨after, earlyBehind, keptBehind, passes⟩ := induction others between
      refine ⟨after, by omega, ?_, fun ending runs =>
        runs_second (by simp [some]) refused (passes ending runs)⟩
      intro late
      obtain rfl := kept late
      exact keptBehind late

theorem misses_call_word (leaves : Leaves isWordStart chars) :
    (rule .call).Misses chars [.word] := .rule_single (.both (misses_word leaves))

theorem misses_call (start : isWordStart first = true)
    (noCall : (unpadded (rest.dropWhile isWordChar)).head? ≠ some '(') :
    (rule .call).Misses (first :: rest) [.call] := by
  have noParen : (both gap (spaced (text ['(']) (spaced (maybe list) (text [')'])))).Avoids _ :=
    (takes_gap (rest.dropWhile isWordChar)).avoids_both (.both (avoids_char noCall))
  rw [unpadded, List.takeWhile_append_dropWhile] at noParen
  have avoids : (Rule.body .call).Avoids _ := (takes_word start rest).avoids_both noParen
  rw [List.cons_append, List.takeWhile_append_dropWhile] at avoids
  exact .rule avoids

theorem misses_array (other : chars.head? ≠ some '[') : (rule .array).Misses chars [.array] :=
  .rule (.both (avoids_char other))

theorem avoids_group (other : chars.head? ≠ some '(') : group.Avoids chars :=
  .both (avoids_char other)

theorem misses_primary (noWord : Leaves isWordStart chars) (noDigit : Leaves Char.isDigit chars)
    (noFraction : ∀ rest, chars = '.' :: rest → Leaves Char.isDigit rest)
    (noBracket : chars.head? ≠ some '[') (noParen : chars.head? ≠ some '(') :
    primary.Misses chars [.word, .array, .width, .label, .number, .word] :=
  (misses_call_word noWord).either ((misses_array noBracket).either
    ((misses_resolution_width noDigit).either ((misses_label_digit noDigit).either
      ((misses_number noDigit noFraction).either
        ((misses_word noWord).either_avoids (avoids_group noParen))))))

end Piece

namespace State

variable {offset stop : Nat} {chars rest spelling : List Char} {token : Token}

theorem Goes.unpadded (goes : Goes offset chars stop rest) :
    Goes offset chars (stop + blanks rest) (unpadded rest) := by
  intro opened level
  obtain ⟨after, latest, reads⟩ := goes opened level
  exact ⟨after, latest, by rw [reads, read_from_unpadded]⟩

theorem Goes.of_closed {bracket : Bracket} {start inside : Nat} {more : List Char}
    (opens : ∀ opened level, readFrom ⟨opened, level, .operand⟩ offset chars =
      readFrom ⟨⟨bracket, start, level⟩ :: opened, .fresh, .operand⟩ inside more)
    (closes : ∀ opened outside start, ∃ whole,
      readFrom ⟨⟨bracket, start, outside⟩ :: opened, .fresh, .operand⟩ inside more =
        readFrom ⟨opened, outside, .operator whole⟩ stop rest) :
    Goes offset chars stop rest := by
  intro opened level
  obtain ⟨whole, closed⟩ := closes opened level start
  exact ⟨level, whole, (opens opened level).trans closed⟩

end State

theorem Token.IsRead.length_pos {afterOperand : Bool} {token : Token} {spelling behind : List Char}
    (isRead : IsRead afterOperand token spelling behind) : 0 < spelling.length := by
  obtain ⟨first, rest, begins, read⟩ := isRead
  have shorter : behind.length < (first :: rest).length := length_read _ _ _ _ read
  rw [← begins, List.length_append] at shorter
  omega

theorem begins_operand_of_read {token : Token} {spelling behind : List Char}
    (isRead : IsRead false token spelling behind) (alone : token.suits true = false) :
    beginsOperand (spelling ++ behind) = true := by
  obtain ⟨first, rest, begins, read⟩ := isRead
  rw [begins]
  unfold read? at read
  split at read
  · rename_i isPunctuation
    cases read
    unfold punctuation? at isPunctuation
    split at isPunctuation <;> cases isPunctuation <;> cases alone
  · have found : operand? first rest = some (token, behind) := read
    simp [beginsOperand, found]

theorem is_atom_of_resolution {chars behind : List Char} {token : Token}
    (found : resolution? chars = some (token, behind)) (span : Span) :
    ∃ value, atom? token span = some value := by
  unfold resolution? at found
  split at found
  · cases found
    exact ⟨_, rfl⟩
  · cases found

theorem is_atom_of_label {chars behind : List Char} {token : Token}
    (found : label? chars = some (token, behind)) (span : Span) :
    ∃ value, atom? token span = some value := by
  unfold label? at found
  split at found
  · split at found
    · cases found
      exact ⟨_, rfl⟩
    · cases found
  · cases found

theorem is_atom_of_number (chars : List Char) (span : Span) :
    ∃ value, atom? (number? chars).1 span = some value := by
  unfold number?
  split <;> exact ⟨_, rfl⟩

section Primary

variable {offset : Nat} {chars rest spelling behind : List Char} {first : Char} {token : Token}
  {attempts : Attempts} {length : Nat} {missed : List Rule}

theorem token_agrees (front : List Piece) {piece : Piece} (others : List Piece)
    (parts : chars = spelling ++ behind) (idle : ∀ other ∈ front, other.Idles chars)
    (takes : piece.Takes spelling behind) (isRead : IsRead false token spelling behind)
    (alone : token.suits true = false) (goes : Goes offset chars (offset + spelling.length) behind)
    (early : attempts.furthest ≤ offset) :
    OperandCourse (.oneOf (front ++ piece :: others)) missed offset chars attempts := by
  subst parts
  obtain ⟨after, bound, -, passes⟩ :=
    Piece.runs_behind front (List.cons_ne_nil piece others) idle offset attempts
  have nonempty := isRead.length_pos
  refine .passed (begins_operand_of_read isRead alone)
    ⟨_, _, passes _ (Piece.runs_first others (takes offset after)), rfl, rfl⟩ goes.unpadded ?_
  omega

theorem atom_agrees (front : List Piece) {piece : Piece} (others : List Piece)
    (parts : chars = spelling ++ behind) (idle : ∀ other ∈ front, other.Idles chars)
    (takes : piece.Takes spelling behind) (isRead : IsRead false token spelling behind)
    (isAtom : ∀ span, ∃ value, atom? token span = some value) (early : attempts.furthest ≤ offset) :
    OperandCourse (.oneOf (front ++ piece :: others)) missed offset chars attempts := by
  have alone : token.suits true = false := by
    obtain ⟨value, atom⟩ := isAtom ⟨0, 0⟩
    cases token <;> first | rfl | cases atom
  refine token_agrees front others parts idle takes isRead alone ?_ early
  intro opened level
  rw [parts]
  obtain ⟨value, atom⟩ := isAtom ⟨offset, offset + spelling.length⟩
  exact ⟨level, _, read_from_atom isRead atom⟩

theorem digit_agrees (digit : first.isDigit = true) (early : attempts.furthest ≤ offset) :
    OperandCourse .primary missed offset (first :: rest) attempts := by
  have noWord : Leaves isWordStart (first :: rest) := by
    rintro char ⟨⟩
    rw [Bool.eq_false_iff]
    intro start
    exact absurd ((not_digit_of_start start).symm.trans digit) (by decide)
  have noBracket : (first :: rest).head? ≠ some '[' := by
    rintro ⟨⟩
    exact absurd digit (by decide)
  have call := (Piece.misses_call_word noWord).idles
  have array := (Piece.misses_array noBracket).idles
  have read := read_digit_led rest digit
  unfold digitLed at read
  cases asResolution : resolution? (first :: rest) with
  | some reading =>
      obtain ⟨token, behind⟩ := reading
      rw [asResolution] at read
      obtain ⟨spelling, parts, takes⟩ := Piece.takes_resolution digit asResolution
      exact atom_agrees [.rule .call, .rule .array]
        [.rule .label, .rule .number, .rule .word, .group] parts (by simp [call, array]) takes
        ⟨first, rest, parts.symm, read⟩ (is_atom_of_resolution asResolution) early
  | none =>
      rw [asResolution] at read
      have resolution := (Piece.misses_resolution digit asResolution).idles
      cases asLabel : label? (first :: rest) with
      | some reading =>
          obtain ⟨token, behind⟩ := reading
          rw [asLabel] at read
          obtain ⟨spelling, parts, takes⟩ := Piece.takes_label digit asLabel
          exact atom_agrees [.rule .call, .rule .array, .rule .resolution]
            [.rule .number, .rule .word, .group] parts (by simp [call, array, resolution]) takes
            ⟨first, rest, parts.symm, read⟩ (is_atom_of_label asLabel) early
      | none =>
          rw [asLabel] at read
          have label := (Piece.misses_label digit asLabel).idles
          obtain ⟨spelling, parts, takes⟩ := Piece.takes_number digit rest
          exact atom_agrees [.rule .call, .rule .array, .rule .resolution, .rule .label]
            [.rule .word, .group] parts (by simp [call, array, resolution, label]) takes
            ⟨first, rest, parts.symm, read⟩ (is_atom_of_number (first :: rest)) early

theorem fraction_agrees (digit : first.isDigit = true) (early : attempts.furthest ≤ offset) :
    OperandCourse .primary missed offset ('.' :: first :: rest) attempts := by
  have parts : '.' :: first :: rest = ('.' :: (first :: rest).takeWhile Char.isDigit) ++
      (first :: rest).dropWhile Char.isDigit := by
    rw [List.cons_append, List.takeWhile_append_dropWhile]
  have noWord : Leaves isWordStart ('.' :: first :: rest) := by simp [Leaves, isWordStart]
  have noDigit : Leaves Char.isDigit ('.' :: first :: rest) := by simp [Leaves]
  have call := (Piece.misses_call_word noWord).idles
  have noBracket : ('.' :: first :: rest).head? ≠ some '[' := by simp
  have array := (Piece.misses_array noBracket).idles
  have resolution := (Piece.misses_resolution_width noDigit).idles
  have label := (Piece.misses_label_digit noDigit).idles
  have begins : (first :: rest).head?.any Char.isDigit = true := digit
  have isRead : IsRead false (.number (.ofText [] ((first :: rest).takeWhile Char.isDigit)))
      ('.' :: (first :: rest).takeWhile Char.isDigit) ((first :: rest).dropWhile Char.isDigit) := by
    refine ⟨'.', first :: rest, parts.symm, ?_⟩
    change operand? '.' (first :: rest) = _
    unfold operand?
    rw [begins]
    rfl
  exact atom_agrees [.rule .call, .rule .array, .rule .resolution, .rule .label]
    [.rule .word, .group] parts (by simp [call, array, resolution, label])
    (Piece.takes_fraction digit rest) isRead (fun _ => ⟨_, rfl⟩) early

theorem word_parts (first : Char) (rest : List Char) :
    first :: rest = (first :: rest.takeWhile isWordChar) ++ rest.dropWhile isWordChar := by
  rw [List.cons_append, List.takeWhile_append_dropWhile]

theorem is_read_word (start : isWordStart first = true) (rest : List Char) :
    IsRead false (.word (String.ofList (first :: rest.takeWhile isWordChar)))
      (first :: rest.takeWhile isWordChar) (rest.dropWhile isWordChar) := by
  have kept := height_of_start start
  refine ⟨first, rest, (word_parts first rest).symm, ?_⟩
  unfold read?
  rw [punctuation_none kept]
  change operand? first rest = _
  unfold operand?
  rw [not_minus_of_height kept, not_digit_of_start start, start]
  rfl

theorem word_idle (start : isWordStart first = true) (rest : List Char) :
    ∀ piece ∈ [.rule .array, .rule .resolution, .rule .label, .rule .number],
      Piece.Idles piece (first :: rest) := by
  have noDigit : Leaves Char.isDigit (first :: rest) := by
    rintro char ⟨⟩
    exact not_digit_of_start start
  have noPoint : ∀ more, first :: rest = '.' :: more → Leaves Char.isDigit more := by
    rintro more ⟨⟩
    cases start
  have noBracket : (first :: rest).head? ≠ some '[' := by
    rintro ⟨⟩
    cases start
  simp [(Piece.misses_array noBracket).idles, (Piece.misses_resolution_width noDigit).idles,
    (Piece.misses_label_digit noDigit).idles, (Piece.misses_number noDigit noPoint).idles]

theorem word_ends (start : isWordStart first = true) (rest : List Char) (offset : Nat)
    (attempts : Attempts) :
    Ends (.rule .word) offset (first :: rest) attempts
      (offset + (first :: rest.takeWhile isWordChar).length + blanks (rest.dropWhile isWordChar))
      (unpadded (rest.dropWhile isWordChar)) attempts := by
  rw [word_parts first rest]
  exact .of_takes (Piece.takes_word start rest) offset attempts

theorem opener_ends (bracket : Char) (narrow : byteCount [bracket] = 1) (inside : List Char)
    (offset : Nat) (attempts : Attempts) :
    Ends (.text [bracket]) offset (bracket :: inside) attempts (offset + 1 + blanks inside)
      (unpadded inside) attempts :=
  .of_takes (Piece.takes_text narrow) offset attempts

/-- If a call has to be given up, the program takes its name for an operand, and the parenthesis is
left behind. -/
theorem call_agrees {inside : List Char} (within : AgreesWithin length)
    (short : (first :: rest).length ≤ length) (start : isWordStart first = true)
    (opens : unpadded (rest.dropWhile isWordChar) = '(' :: inside)
    (early : attempts.furthest ≤ offset) :
    OperandCourse .primary missed offset (first :: rest) attempts := by
  have isRead := is_read_word start rest
  have begins := begins_operand_of_read isRead rfl
  have parts := word_parts first rest
  have shorter := (List.dropWhile_suffix isWordChar (l := rest)).length_le
  have shorterInside := length_unpadded (rest.dropWhile isWordChar)
  have shorterList := length_unpadded inside
  rw [← parts] at begins
  rw [opens] at shorterInside
  simp only [List.length_cons] at short shorterInside
  generalize known : offset + (first :: rest.takeWhile isWordChar).length +
    blanks (rest.dropWhile isWordChar) = stop
  have further : offset < stop := by
    rw [← known, List.length_cons]
    omega
  have name := word_ends start rest offset
  rw [opens, known] at name
  have paren := opener_ends '(' rfl inside stop attempts
  have reads (opened : List Open) (level : Level) :
      readFrom ⟨opened, level, .operand⟩ offset (first :: rest) =
        readFrom ⟨⟨.call (String.ofList (first :: rest.takeWhile isWordChar)), offset, level⟩ ::
          opened, .fresh, .operand⟩ (stop + 1 + blanks inside) (unpadded inside) := by
    rw [parts, read_from_call isRead opens, read_from_unpadded, known]
  have isList : Bracket.call (String.ofList (first :: rest.takeWhile isWordChar)) ≠ .group := by
    simp
  cases list_agrees within isList (by omega) (unpadded_solid inside)
    (show attempts.furthest < stop + 1 + blanks inside by omega) with
  | closed runs clear closes =>
      have call : Runs (.rule .call) offset (first :: rest) attempts _ :=
        .rule ((name attempts).spaced_runs (paren.spaced_runs runs))
      exact .passed begins ⟨_, _, Piece.runs_first _ call, rfl, rfl⟩
        (Goes.of_closed reads closes).unpadded (by omega)
  | @faulty fault runs beyond faults =>
      have late : offset < fault.attempts.furthest := by
        change offset < fault.offset
        omega
      have call : Runs (.rule .call) offset (first :: rest) attempts (.failed fault.attempts) :=
        Runs.rule_beyond ((name attempts).spaced_runs (paren.spaced_runs runs)) late
      have some : [Piece.rule .word, .group] ≠ [] := by simp
      obtain ⟨after, -, kept, passes⟩ :=
        Piece.runs_behind _ some (word_idle start rest) offset fault.attempts
      obtain rfl := kept late
      obtain ⟨middle, behind, word, isStop, isRest⟩ := name fault.attempts
      have ends :
          Ends .primary offset (first :: rest) attempts stop ('(' :: inside) fault.attempts :=
        ⟨middle, behind, Piece.runs_second (by simp) call (passes _ (Piece.runs_first _ word)),
          isStop, isRest⟩
      exact .faulty begins late (.stopped ends (by omega) rfl rfl)
        fun opened level => (reads opened level).trans (faults _ _ _)

theorem word_agrees (within : AgreesWithin length) (short : (first :: rest).length ≤ length)
    (start : isWordStart first = true) (early : attempts.furthest ≤ offset) :
    OperandCourse .primary missed offset (first :: rest) attempts := by
  by_cases paren : (unpadded (rest.dropWhile isWordChar)).head? = some '('
  · obtain ⟨inside, opens⟩ := List.head?_eq_some_iff.1 paren
    exact call_agrees within short start opens early
  · refine token_agrees [.rule .call, .rule .array, .rule .resolution, .rule .label, .rule .number]
      [.group] (word_parts first rest)
      (List.forall_mem_cons.2 ⟨(Piece.misses_call start paren).idles, word_idle start rest⟩)
      (Piece.takes_word start rest) (is_read_word start rest) rfl ?_ early
    intro opened level
    rw [word_parts first rest]
    exact ⟨level, _, read_from_name (is_read_word start rest) paren⟩

theorem bracket_idle (bracket : first = '(' ∨ first = '[') (inside : List Char) :
    ∀ piece ∈ [.rule .call, .rule .resolution, .rule .label, .rule .number, .rule .word],
      Piece.Idles piece (first :: inside) := by
  have noWord : Leaves isWordStart (first :: inside) := by
    rcases bracket with rfl | rfl <;> simp [Leaves, isWordStart]
  have noDigit : Leaves Char.isDigit (first :: inside) := by
    rcases bracket with rfl | rfl <;> simp [Leaves]
  have noPoint : ∀ more, first :: inside = '.' :: more → Leaves Char.isDigit more := by
    rcases bracket with rfl | rfl <;> simp
  simp [(Piece.misses_call_word noWord).idles, (Piece.misses_resolution_width noDigit).idles,
    (Piece.misses_label_digit noDigit).idles, (Piece.misses_number noDigit noPoint).idles,
    (Piece.misses_word noWord).idles]

theorem parenthesis_agrees {inside : List Char} (within : AgreesWithin length)
    (short : inside.length < length) (early : attempts.furthest ≤ offset) :
    OperandCourse .primary missed offset ('(' :: inside) attempts := by
  have noBracket : ('(' :: inside).head? ≠ some '[' := by simp
  obtain ⟨call, others⟩ := List.forall_mem_cons.1 (bracket_idle (.inl rfl) inside)
  have array := (Piece.misses_array noBracket).idles
  have idle : ∀ piece ∈ [.rule .call, .rule .array, .rule .resolution, .rule .label, .rule .number,
      .rule .word], Piece.Idles piece ('(' :: inside) :=
    List.forall_mem_cons.2 ⟨call, List.forall_mem_cons.2 ⟨array, others⟩⟩
  obtain ⟨after, bound, -, passes⟩ :=
    Piece.runs_behind _ (List.cons_ne_nil Piece.group []) idle offset attempts
  have paren := opener_ends '(' rfl inside offset after
  have reads (opened : List Open) (level : Level) :
      readFrom ⟨opened, level, .operand⟩ offset ('(' :: inside) =
        readFrom ⟨⟨.group, offset, level⟩ :: opened, .fresh, .operand⟩ (offset + 1 + blanks inside)
          (unpadded inside) := by
    rw [read_from_paren, read_from_unpadded]
  have shorter := length_unpadded inside
  cases group_agrees within (by omega) (unpadded_solid inside)
    (show after.furthest < offset + 1 + blanks inside by omega) with
  | closed runs clear closes =>
      exact .passed rfl ⟨_, _, passes _ (paren.spaced_runs runs), rfl, rfl⟩
        (Goes.of_closed reads closes).unpadded (by omega)
  | faulty runs beyond faults =>
      exact .faulty rfl (by omega) (.refused (passes _ (paren.spaced_runs runs)))
        fun opened level => (reads opened level).trans (faults _ _ _)

theorem bracket_agrees {inside : List Char} (within : AgreesWithin length)
    (short : inside.length < length) (early : attempts.furthest ≤ offset) :
    OperandCourse .primary missed offset ('[' :: inside) attempts := by
  have noParen : ('[' :: inside).head? ≠ some '(' := by simp
  obtain ⟨call, idle⟩ := List.forall_mem_cons.1 (bracket_idle (.inr rfl) inside)
  have some : [Piece.rule .array, .rule .resolution, .rule .label, .rule .number, .rule .word,
    .group] ≠ [] := by simp
  obtain ⟨after, bound, -, passes⟩ :=
    Piece.runs_behind [.rule .call] some (by simpa using call) offset attempts
  have bracket := opener_ends '[' rfl inside offset after
  have reads (opened : List Open) (level : Level) :
      readFrom ⟨opened, level, .operand⟩ offset ('[' :: inside) =
        readFrom ⟨⟨.array, offset, level⟩ :: opened, .fresh, .operand⟩ (offset + 1 + blanks inside)
          (unpadded inside) := by
    rw [read_from_bracket, read_from_unpadded]
  have shorter := length_unpadded inside
  have isList : Bracket.array ≠ .group := by simp
  cases list_agrees within isList (by omega) (unpadded_solid inside)
    (show after.furthest < offset + 1 + blanks inside by omega) with
  | closed runs clear closes =>
      have array : Runs (.rule .array) offset ('[' :: inside) after _ :=
        .rule (bracket.spaced_runs runs)
      exact .passed rfl ⟨_, _, passes _ (Piece.runs_first _ array), rfl, rfl⟩
        (Goes.of_closed reads closes).unpadded (by omega)
  | @faulty fault runs beyond faults =>
      have late : offset < fault.attempts.furthest := by
        change offset < fault.offset
        omega
      have array : Runs (.rule .array) offset ('[' :: inside) after (.failed fault.attempts) :=
        Runs.rule_beyond (bracket.spaced_runs runs) late
      obtain ⟨last, -, kept, passesOthers⟩ :=
        Piece.runs_behind _ (List.cons_ne_nil Piece.group []) idle offset fault.attempts
      obtain rfl := kept late
      have others := passesOthers _ (Piece.avoids_group noParen offset _)
      exact .faulty rfl late (.refused (passes _ (Piece.runs_second (by simp) array others)))
        fun opened level => (reads opened level).trans (faults _ _ _)

theorem primary_agrees (within : AgreesWithin length) (short : chars.length ≤ length)
    (unsigned : chars.head? ≠ some '-') (early : attempts.furthest ≤ offset) :
    OperandCourse .primary [.word, .array, .width, .label, .number, .word] offset chars
      attempts := by
  cases chars with
  | nil =>
      exact .absent rfl (Piece.misses_primary (by simp [Leaves]) (by simp [Leaves]) (by simp)
        (by simp) (by simp))
  | cons first rest =>
      by_cases start : isWordStart first = true
      · exact word_agrees within short start early
      by_cases digit : first.isDigit = true
      · exact digit_agrees digit early
      by_cases fraction : first = '.' ∧ rest.head?.any Char.isDigit = true
      · obtain ⟨rfl, begins⟩ := fraction
        cases rest with
        | nil => cases begins
        | cons digit rest => exact fraction_agrees begins early
      by_cases paren : first = '('
      · subst paren
        exact parenthesis_agrees within short early
      by_cases bracket : first = '['
      · subst bracket
        exact bracket_agrees within short early
      have noFraction : ∀ more, first :: rest = '.' :: more → Leaves Char.isDigit more := by
        rintro more ⟨⟩ char begins
        rw [Bool.eq_false_iff]
        intro isDigit
        exact fraction ⟨rfl, by rw [show rest.head? = some char from begins]; exact isDigit⟩
      refine .absent ?_ (Piece.misses_primary (by simpa [Leaves] using start)
        (by simpa [Leaves] using digit) noFraction (by simpa using bracket) (by simpa using paren))
      have noMinus : first ≠ '-' := by simpa using unsigned
      unfold beginsOperand operand?
      simpa [paren, bracket, noMinus, digit, start] using fraction

/-- If both the program and the reader go over the beginning of a text, a larger piece agrees with
reading as the smaller one does behind it. -/
theorem Course.around {piece outer : Piece} {others : List Rule} {blocks : Char → Prop}
    {clear : Nat → List Char → Attempts → Prop} {start : Nat} {whole : List Char} {given : Attempts}
    (before : start ≤ offset) (begins : beginsOperand chars = true → beginsOperand whole = true)
    (runs : ∀ ending, Runs piece offset chars attempts ending → Runs outer start whole given ending)
    (reads : ∀ opened level, ∃ further, readFrom ⟨opened, level, .operand⟩ start whole =
      readFrom ⟨opened, further, .operand⟩ offset chars)
    (absent : beginsOperand chars = false → piece.Misses chars missed →
      Course outer others blocks clear start whole given)
    (course : Course piece missed blocks clear offset chars attempts) :
    Course outer others blocks clear start whole given := by
  have around {stop : Nat} {rest : List Char} {after : Attempts}
      (ends : Ends piece offset chars attempts stop rest after) :
      Ends outer start whole given stop rest after := by
    obtain ⟨middle, behind, matched, isStop, isRest⟩ := ends
    exact ⟨middle, behind, runs _ matched, isStop, isRest⟩
  cases course with
  | passed starts ends goes isClear =>
      refine .passed (begins starts) (around ends) ?_ isClear
      intro opened level
      obtain ⟨further, same⟩ := reads opened level
      obtain ⟨after, latest, passes⟩ := goes opened further
      exact ⟨after, latest, same.trans passes⟩
  | faulty starts beyond stuck faults =>
      refine .faulty (begins starts) (Nat.lt_of_le_of_lt before beyond) ?_ ?_
      · cases stuck with
        | refused refuses => exact .refused (runs _ refuses)
        | stopped ends before first blocked => exact .stopped (around ends) before first blocked
      · intro opened level
        obtain ⟨further, same⟩ := reads opened level
        exact same.trans (faults opened further)
  | absent none misses => exact absent none misses

theorem operand_agrees (within : AgreesWithin length) (short : chars.length ≤ length)
    (solid : Leaves isGap chars) (early : attempts.furthest ≤ offset) :
    OperandCourse .operand Expected.operand.rules offset chars attempts := by
  induction size : chars.length using Nat.strong_induction_on generalizing chars offset with
  | _ size induction =>
  subst size
  by_cases signed : chars.head? = some '-'
  · obtain ⟨rest, rfl⟩ := List.head?_eq_some_iff.1 signed
    have shorter := length_unpadded rest
    rw [List.length_cons] at short
    have later : attempts.furthest ≤ offset + 1 + blanks rest := by omega
    have behind := induction (unpadded rest).length (by simp only [List.length_cons]; omega)
      (by omega) (unpadded_solid rest) later rfl
    have reads (opened : List Open) (level : Level) :
        readFrom ⟨opened, level, .operand⟩ offset ('-' :: rest) =
          readFrom ⟨opened, { level with minuses := offset :: level.minuses }, .operand⟩
            (offset + 1 + blanks rest) (unpadded rest) := by
      rw [read_from_minus, read_from_unpadded]
    refine behind.around (by omega) (fun _ => rfl) (fun _ => runs_behind_minus)
      (fun opened level => ⟨_, reads opened level⟩) ?_
    intro none misses
    have refused := misses (offset + 1 + blanks rest) attempts
    rw [Attempts.record_beyond (by omega)] at refused
    have stuck : Stuck .operand (· = '(') offset ('-' :: rest) attempts
        ⟨offset + 1 + blanks rest, .operand⟩ := .refused (runs_behind_minus refused)
    refine .faulty rfl (show offset < offset + 1 + blanks rest by omega) stuck ?_
    intro opened level
    refine (reads opened level).trans
      ((read_from_no_operand (unpadded_solid rest) none ?_).trans ?_)
    · intro mayClose
      simp [Level.mayCloseEmpty, Level.isBegun] at mayClose
    · simp [Level.isBegun]
  · have bound := Attempts.furthest_record attempts offset [.minus]
    refine (primary_agrees within short signed (by omega)).around (Nat.le_refl offset) id
      (fun _ => runs_without_minus solid signed) (fun _ level => ⟨level, rfl⟩) ?_
    intro none misses
    refine .absent none fun offset attempts => runs_without_minus solid signed ?_
    have refused := misses offset (attempts.record offset [.minus])
    rwa [Attempts.record_record] at refused

end Primary

end ImageGraph.Expr
