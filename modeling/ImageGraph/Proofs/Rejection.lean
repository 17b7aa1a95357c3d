import ImageGraph.Proofs.Acceptance

/-!
Texts that are rejected. In front of a fault there are whole tokens and blanks, and they are read
alone as they are read in the whole text. The last of these tokens and the number of open brackets
decide what was expected. They can always be completed to a text that is read, with a digit if an
operand is missing and with the brackets that are still open.
-/

set_option autoImplicit false

namespace ImageGraph.Expr

open Token State

namespace Token

def isOpening : Token → Bool
  | openParen | openBracket => true
  | _ => false

def isClosing : Token → Bool
  | closeParen | closeBracket => true
  | _ => false

section Leaves

variable {afterOperand : Bool} {first : Char} {chars rest behind : List Char} {token : Token}

theorem suits_of_operand (found : operand? first rest = some (token, behind)) :
    token.suits false = true := by
  have atom {token : Token} (isAtom : ∀ span, ∃ value, atom? token span = some value) :
      token.suits false = true := by
    obtain ⟨value, same⟩ := isAtom ⟨0, 0⟩
    cases token <;> first | rfl | cases same
  unfold operand? at found
  split at found
  · cases found
    rfl
  · split at found
    · unfold digitLed at found
      cases asResolution : resolution? (first :: rest) with
      | some reading =>
          rw [asResolution] at found
          cases found
          exact atom (is_atom_of_resolution asResolution)
      | none =>
          rw [asResolution] at found
          cases asLabel : label? (first :: rest) with
          | some reading =>
              rw [asLabel] at found
              cases found
              exact atom (is_atom_of_label asLabel)
          | none =>
              rw [asLabel] at found
              have isAtom := is_atom_of_number (first :: rest)
              have same : number? (first :: rest) = (token, behind) := Option.some.inj found
              rw [same] at isAtom
              exact atom isAtom
    · split at found
      · cases found
        rfl
      · split at found
        · cases found
          rfl
        · cases found

theorem suits_of_read (read : read? afterOperand first rest = some (token, behind)) :
    token.suits afterOperand = true := by
  unfold read? at read
  split at read
  · rename_i isPunctuation
    cases read
    unfold punctuation? at isPunctuation
    split at isPunctuation <;> cases isPunctuation <;> rfl
  · cases afterOperand with
    | true =>
        obtain ⟨operator, -, same⟩ := Option.map_eq_some_iff.1 read
        cases same
        rfl
    | false => exact suits_of_operand read

/-- An operator is read with the longest symbol that fits. -/
theorem leaves_of_operator {operator : Operator}
    (found : operator? chars = some (.operator operator, behind)) :
    Leaves (extended operator) behind := by
  have parts := operator_parts found
  intro char member
  rw [Bool.eq_false_iff]
  intro isLonger
  obtain ⟨others, rfl⟩ := List.head?_eq_some_iff.1 member
  have longer := extended_cases isLonger
  simp only [List.mem_cons, Prod.mk.injEq, List.not_mem_nil, or_false] at longer
  subst parts
  rcases longer with ⟨rfl, rfl⟩ | ⟨rfl, rfl⟩ | ⟨rfl, rfl⟩ | ⟨rfl, rfl⟩ <;> cases found

/-- A text that is empty, or begins with a blank or as a token can. -/
def Begins (afterOperand : Bool) (chars : List Char) : Prop :=
  ∀ char ∈ chars.head?, isGap char = true ∨ ∃ rest, (read? afterOperand char rest).isSome = true

theorem leaves_height_of_read {reading : Reading} (read : read? true first rest = some reading) :
    isHeightChar first = false := by
  rw [Bool.eq_false_iff]
  intro kept
  unfold read? at read
  rw [punctuation_none kept] at read
  have found : operator? (first :: rest) = some reading := read
  obtain ⟨operator, -, rfl⟩ := Option.map_eq_some_iff.1 found
  obtain ⟨other, others, symbol, -, ends, -⟩ := symbol_head operator
  have parts := operator_parts found
  rw [symbol] at parts
  obtain rfl : first = other := (List.cons.inj parts).1
  exact absurd (kept.symm.trans ends) (by decide)

theorem IsRead.spelled {spelling : List Char} (isRead : IsRead afterOperand token spelling behind) :
    Spelling token spelling := by
  obtain ⟨first, rest, begins, read⟩ := isRead
  obtain ⟨other, parts, spelled⟩ := read_spelled read
  obtain rfl : spelling = other := List.append_cancel_right (begins.trans parts)
  exact spelled

theorem IsRead.solid {spelling : List Char} (isRead : IsRead afterOperand token spelling behind) :
    Leaves isGap (spelling ++ behind) := by
  obtain ⟨first, rest, begins, read⟩ := isRead
  rw [begins]
  rintro char ⟨⟩
  exact not_gap_of_read read

/-- What follows a token, a blank or another token, does not go on with it. So the token is read
without the rest of the text too. -/
theorem IsRead.without {spelling before : List Char}
    (isRead : IsRead afterOperand token spelling (before ++ behind))
    (begins : Begins token.endsOperand before) : IsRead afterOperand token spelling before := by
  have plain (ends : token.endsOperand = true) : Leaves isHeightChar before := by
    intro char member
    rcases begins char member with gap | ⟨others, next⟩
    · have gaps : ∀ other ∈ [char], isGap other = true := by simpa using gap
      exact (stops_of_gaps gaps).leaves (by decide) char rfl
    · rw [ends] at next
      obtain ⟨reading, read⟩ := Option.isSome_iff_exists.1 next
      exact leaves_height_of_read read
  have spelled := isRead.spelled
  obtain ⟨first, rest, -, read⟩ := isRead
  have suits := suits_of_read read
  refine spelled.is_read suits ?_
  cases token with
  | operator operator =>
      obtain rfl : afterOperand = true := suits
      unfold read? at read
      split at read
      · rename_i isPunctuation
        unfold punctuation? at isPunctuation
        split at isPunctuation <;> cases isPunctuation <;> cases read
      · intro char member
        refine leaves_of_operator read char ?_
        obtain ⟨others, rfl⟩ := List.head?_eq_some_iff.1 member
        rfl
  | number | word | label | resolution => exact plain rfl
  | _ => exact fun _ _ => rfl

end Leaves

end Token

section Scanned

variable {afterOperand : Bool} {offset : Nat} {chars gap spelling behind : List Char}
  {token : Token}

theorem scan_read (gaps : ∀ char ∈ gap, isGap char = true)
    (isRead : IsRead afterOperand token spelling behind) (offset : Nat) :
    scan afterOperand offset (gap ++ (spelling ++ behind)) =
      let start := offset + gap.length
      let stop := start + spelling.length
      { scan token.endsOperand stop behind with
        tokens := ⟨token, ⟨start, stop⟩⟩ :: (scan token.endsOperand stop behind).tokens } := by
  obtain ⟨first, rest, begins, read⟩ := isRead
  have solid := not_gap_of_read read
  have dropped : (gap ++ (spelling ++ behind)).dropWhile isGap = first :: rest := by
    rw [List.dropWhile_append_of_pos gaps, begins, List.dropWhile_cons, solid]
    rfl
  have taken : (gap ++ (spelling ++ behind)).takeWhile isGap = gap := by
    rw [List.takeWhile_append_of_pos gaps, begins, List.takeWhile_cons, solid]
    exact List.append_nil gap
  have length : (first :: rest).length - behind.length = spelling.length := by
    rw [← begins, List.length_append]
    omega
  rw [scan_token dropped read, taken, length]

theorem scan_cases (afterOperand : Bool) (chars : List Char) :
    ∃ gap rest, chars = gap ++ rest ∧ (∀ char ∈ gap, isGap char = true) ∧ Leaves isGap rest ∧
      ((∃ complete, (complete = true → rest = []) ∧ ∀ offset,
          scan afterOperand offset chars = ⟨[], offset + gap.length, complete⟩) ∨
        ∃ token spelling behind, rest = spelling ++ behind ∧
          IsRead afterOperand token spelling behind) := by
  refine ⟨chars.takeWhile isGap, unpadded chars, List.takeWhile_append_dropWhile.symm,
    fun char member => List.mem_takeWhile_imp member, unpadded_solid chars, ?_⟩
  cases begins : unpadded chars with
  | nil => exact .inl ⟨true, fun _ => rfl, scan_blank begins⟩
  | cons first rest =>
      cases read : read? afterOperand first rest with
      | none => exact .inl ⟨false, by simp, scan_fault begins read⟩
      | some reading =>
          obtain ⟨spelling, parts, -⟩ := read_spelled read
          exact .inr ⟨reading.1, spelling, reading.2, parts, first, rest, parts.symm, read⟩

theorem Token.IsRead.begins (isRead : IsRead afterOperand token spelling behind)
    (gaps : ∀ char ∈ gap, isGap char = true) :
    Begins afterOperand (gap ++ (spelling ++ behind)) := by
  intro char member
  cases gap with
  | nil =>
      obtain ⟨first, rest, begins, read⟩ := isRead
      rw [List.nil_append, begins] at member
      cases member
      exact .inr ⟨rest, by rw [read]; rfl⟩
  | cons first gap =>
      cases member
      exact .inl (gaps _ List.mem_cons_self)

/-- Where the first of some tokens begins, or where the text ends if there is none. -/
def nextStart (stop : Nat) : List Placed → Nat
  | [] => stop
  | next :: _ => next.span.start

/-- The beginning of a scanned text, with any number of its tokens and the blanks behind them, is
scanned in the same way alone. -/
theorem scan_front {front back : List Placed}
    (parts : (scan afterOperand offset chars).tokens = front ++ back) :
    ∃ before behind, chars = before ++ behind ∧ Leaves isGap behind ∧ Begins afterOperand before ∧
      scan afterOperand offset before = ⟨front, offset + before.length, true⟩ ∧
        nextStart (scan afterOperand offset chars).stop back = offset + before.length := by
  induction size : chars.length using Nat.strong_induction_on
    generalizing chars afterOperand offset front with
  | _ size induction =>
  subst size
  obtain ⟨gap, rest, rfl, gaps, solid, following⟩ := scan_cases afterOperand chars
  have beginsGap : Begins afterOperand gap :=
    fun char member => .inl (gaps char (List.mem_of_mem_head? member))
  have blank : scan afterOperand offset gap = ⟨[], offset + gap.length, true⟩ := by
    rw [scan_blank (List.dropWhile_eq_nil_iff.2 gaps), List.takeWhile_eq_self_iff.2 gaps]
  rcases following with ⟨complete, -, ends⟩ | ⟨token, spelling, behind, rfl, isRead⟩
  · rw [ends] at parts ⊢
    obtain ⟨rfl, rfl⟩ := List.append_eq_nil_iff.1 parts.symm
    exact ⟨gap, rest, rfl, solid, beginsGap, blank, rfl⟩
  · rw [scan_read gaps isRead] at parts ⊢
    cases front with
    | nil =>
        rw [List.nil_append] at parts
        subst parts
        exact ⟨gap, _, rfl, solid, beginsGap, blank, rfl⟩
    | cons placed front =>
        obtain ⟨rfl, tail⟩ := List.cons.inj parts
        have positive := isRead.length_pos
        obtain ⟨before, left, rfl, solidLeft, begins, scans, starts⟩ :=
          induction behind.length (by simp only [List.length_append]; omega) tail rfl
        have isRead := isRead.without begins
        have total : (gap ++ (spelling ++ before)).length =
            gap.length + spelling.length + before.length := by
          simp only [List.length_append, Nat.add_assoc]
        refine ⟨gap ++ (spelling ++ before), left, by simp only [List.append_assoc], solidLeft,
          isRead.begins gaps, ?_, ?_⟩
        · rw [scan_read gaps isRead, total]
          simp only [scans, ← Nat.add_assoc]
        · rw [total]
          exact starts.trans (by omega)

end Scanned

/-- What is expected behind some tokens. -/
def Expected.behind (tokens : List Token) : Expected :=
  match tokens.getLast? with
  | none | some .openParen | some .openBracket | some .comma => expression
  | some .minus | some (.operator _) => operand
  | some _ =>
      if tokens.countP isOpening = tokens.countP isClosing then operatorOrEnd else operator

namespace State

variable {tokens : List Placed} {placed : Placed} {state next : State} {fault : Fault}

theorem fold_refused (refused : tokens.foldlM step state = .error fault) :
    ∃ front placed back middle, tokens = front ++ placed :: back ∧
      front.foldlM step state = .ok middle ∧ fault = ⟨placed.span.start, middle.expected⟩ := by
  induction tokens generalizing state with
  | nil => cases refused
  | cons placed tokens induction =>
      cases taken : state.step placed with
      | ok next =>
          rw [fold_cons taken] at refused
          obtain ⟨front, other, back, middle, rfl, folds, same⟩ := induction refused
          exact ⟨placed :: front, other, back, middle, rfl, (fold_cons taken).trans folds, same⟩
      | error other =>
          rw [List.foldlM_cons, taken] at refused
          cases refused
          refine ⟨[], placed, tokens, state, rfl, rfl, ?_⟩
          have known := step_refused fun next admitted => by
            rw [taken] at admitted
            cases admitted
          rw [taken] at known
          exact Except.error.inj known

theorem fold_last (folds : (tokens ++ [placed]).foldlM step state = .ok next) :
    ∃ middle, tokens.foldlM step state = .ok middle ∧ middle.step placed = .ok next := by
  cases before : tokens.foldlM step state with
  | error fault =>
      rw [List.foldlM_append, before] at folds
      cases folds
  | ok middle =>
      rw [fold_append before] at folds
      refine ⟨middle, rfl, ?_⟩
      cases taken : middle.step placed with
      | error fault =>
          rw [List.foldlM_cons, taken] at folds
          cases folds
      | ok last =>
          rw [fold_cons taken] at folds
          exact folds

/-- The brackets that are open are those that have not been closed. -/
theorem length_opened (folds : tokens.foldlM step .initial = .ok state) :
    state.opened.length + (tokens.map Placed.token).countP isClosing =
      (tokens.map Placed.token).countP isOpening := by
  induction tokens using List.reverseRecOn generalizing state with
  | nil =>
      cases folds
      rfl
  | append_singleton tokens placed induction =>
      obtain ⟨middle, before, taken⟩ := fold_last folds
      have known := induction before
      obtain ⟨token, span⟩ := placed
      have effect := step_effect taken
      simp only [List.map_append, List.map_cons, List.map_nil, List.countP_append]
      cases token with
      | openParen | openBracket =>
          obtain ⟨-, -, top, opened⟩ := effect
          rw [opened, List.length_cons]
          change _ + 1 + (_ + 0) = _ + 1
          omega
      | closeParen | closeBracket =>
          obtain ⟨-, top, opened⟩ := effect
          rw [opened, List.length_cons] at known
          change _ + (_ + 1) = _ + 0
          omega
      | minus | operator | comma =>
          rw [effect.2.2]
          exact known
      | number | word | label | resolution =>
          rw [effect.2]
          exact known

theorem expected_before (before : state.isBehind = false) :
    state.expected = if state.level.isBegun then .operand else .expression := by
  obtain ⟨opened, level, phase⟩ := state
  cases phase with
  | operand => rfl
  | word | operator => cases before

theorem expected_after (after : state.isBehind = true) :
    state.expected = if state.opened.isEmpty then .operatorOrEnd else .operator := by
  obtain ⟨opened, level, phase⟩ := state
  cases phase with
  | operand => cases after
  | word | operator => rfl

theorem expected_behind (folds : tokens.foldlM step .initial = .ok state) :
    state.expected = .behind (tokens.map Placed.token) := by
  have opened := length_opened folds
  cases tokens using List.reverseRecOn with
  | nil =>
      cases folds
      rfl
  | append_singleton tokens placed =>
      obtain ⟨middle, -, taken⟩ := fold_last folds
      have last : ((tokens ++ [placed]).map Placed.token).getLast? = some placed.token := by simp
      generalize (tokens ++ [placed]).map Placed.token = all at opened last ⊢
      obtain ⟨token, span⟩ := placed
      have effect := step_effect taken
      have balanced : all.countP isOpening = all.countP isClosing ↔
          state.opened.isEmpty = true := by
        rw [List.isEmpty_iff, ← List.length_eq_zero_iff]
        omega
      unfold Expected.behind
      rw [last]
      cases token with
      | minus | operator =>
          rw [expected_before effect.1, effect.2.1]
          rfl
      | openParen | openBracket | comma =>
          rw [expected_before effect.1, effect.2.1]
          rfl
      | closeParen | closeBracket | number | word | label | resolution =>
          rw [expected_after effect.1]
          simp only [balanced]

/-- In front of a fault there are whole tokens, which have been admitted, and blanks. -/
theorem reached_of_fault {chars : List Char} (faults : readChars chars = .error fault) :
    ∃ before behind tokens state, chars = before ++ behind ∧ Leaves isGap behind ∧
      scan false 0 before = ⟨tokens, before.length, true⟩ ∧
      tokens <+: (scan false 0 chars).tokens ∧ tokens.foldlM step .initial = .ok state ∧
      fault = ⟨before.length, state.expected⟩ := by
  unfold readChars at faults
  cases folds : (scan false 0 chars).tokens.foldlM step .initial with
  | error other =>
      obtain rfl : other = fault := by
        simp only [folds] at faults
        cases faults
        rfl
      obtain ⟨front, placed, back, middle, parts, admitted, rfl⟩ := fold_refused folds
      obtain ⟨before, behind, split, solid, -, scans, starts⟩ := scan_front parts
      rw [Nat.zero_add] at scans starts
      exact ⟨before, behind, front, middle, split, solid, scans, ⟨_, parts.symm⟩, admitted,
        congrArg (Fault.mk · middle.expected) starts⟩
  | ok state =>
      have ended : state.finish (scan false 0 chars) = .error fault := by
        simp only [folds] at faults
        exact faults
      obtain ⟨before, behind, split, solid, -, scans, starts⟩ :=
        scan_front (List.append_nil (scan false 0 chars).tokens).symm
      rw [Nat.zero_add] at scans starts
      refine ⟨before, behind, _, state, split, solid, scans, List.prefix_rfl, folds, ?_⟩
      unfold finish at ended
      split at ended
      · cases ended
      · cases ended
        exact congrArg (Fault.mk · state.expected) starts

end State

theorem size_of_spelling {token : Token} {chars : List Char} (spelled : Spelling token chars) :
    ∀ char ∈ chars, char.utf8Size = 1 := by
  have plain (plain : token.isPlain = true) : ∀ char ∈ chars, char.utf8Size = 1 :=
    fun char member => size_of_height (height_of_spelling spelled plain char member)
  have coded (codes : chars.all (fun char => char.toNat.ble 127) = true) :
      ∀ char ∈ chars, char.utf8Size = 1 :=
    fun char member => size_of_ascii (Nat.le_of_ble_eq_true (List.all_eq_true.1 codes char member))
  cases spelled with
  | minus => exact coded (by decide)
  | operator operator =>
      rcases operator with mode | _
      · cases mode <;> exact coded (by decide)
      · exact coded (by decide)
  | punctuation isPunctuation =>
      unfold punctuation? at isPunctuation
      split at isPunctuation <;> cases isPunctuation <;> exact coded (by decide)
  | whole | pointed | word | label | resolution => exact plain rfl

theorem Row.ascii {afterOperand final : Bool} {chars : List Char} {tokens : List Token}
    (row : Row afterOperand chars tokens final) : ∀ char ∈ chars, char.utf8Size = 1 := by
  induction row with
  | blank gaps => exact fun char member => size_of_gap (gaps char member)
  | token gaps read row induction =>
      obtain ⟨spelling, parts, spelled⟩ := read_spelled read
      rw [parts]
      intro char member
      rcases List.mem_append.1 member with before | later
      · exact size_of_gap (gaps char before)
      · rcases List.mem_append.1 later with inside | behind
        · exact size_of_spelling spelled char inside
        · exact induction char behind

theorem utf8_len_of_ascii {chars : List Char} (ascii : ∀ char ∈ chars, char.utf8Size = 1) :
    String.utf8Len chars = chars.length := by
  induction chars with
  | nil => rfl
  | cons char chars induction =>
      obtain ⟨size, others⟩ := List.forall_mem_cons.1 ascii
      rw [String.utf8Len_cons, induction others, size, List.length_cons]

/-- What is reported, word for word. -/
def Expected.report : Expected → String
  | expression => "expected expr"
  | operand => "expected array, res_width, res_name, number, ident, or neg"
  | operator =>
      "expected displace, gamma, power, add_alpha, sub_alpha, under, over, minimum, maximum, " ++
        "average, difference, add, subtract, multiply, or divide"
  | operatorOrEnd =>
      "expected EOI, displace, gamma, power, add_alpha, sub_alpha, under, over, minimum, " ++
        "maximum, average, difference, add, subtract, multiply, or divide"

theorem message_eq_report (fault : Fault) : fault.message = fault.expected.report := by
  have reported (expected : Expected) :
      "expected " ++ enumerate expected.terms = expected.report := by
    cases expected <;> decide +kernel
  exact reported fault.expected

/-- How a fault is reported: with a place at the end of the text or in front of a character, where
nothing is marked. In front of the place there are whole tokens and blanks, behind it there are no
more blanks, and these tokens alone decide what is reported. It is what the program for the rules
has tried in vain furthest on. -/
structure Reported (text before behind : String) (fault : Fault) (attempts : Attempts) : Prop where
  unmarked : fault.span.length = 0
  within : fault.span.start ≤ text.utf8ByteSize
  valid : String.Pos.Raw.IsValid text ⟨fault.span.start⟩
  whole : text = before ++ behind
  place : before.utf8ByteSize = fault.span.start
  solid : Leaves isGap behind.toList
  complete : (scan false 0 before.toList).complete = true
  front : (scan false 0 before.toList).tokens <+: (scan false 0 text.toList).tokens
  decided : fault.message =
    (Expected.behind ((scan false 0 before.toList).tokens.map Placed.token)).report
  runs : Runs (.rule .input) 0 text.toList .none (.failed attempts)
  furthest : attempts.furthest = fault.span.start
  terms : fault.message = "expected " ++ enumerate attempts.terms

theorem parse_error {text : String} {error : Error} (rejected : parse text = .error error) :
    ∃ fault, error = .malformed text fault ∧ readChars text.toList = .error fault := by
  unfold parse read at rejected
  cases reads : readChars text.toList with
  | ok expression =>
      rw [reads] at rejected
      cases rejected
  | error fault =>
      rw [reads] at rejected
      cases rejected
      exact ⟨fault, rfl, rfl⟩

/-- Every text that is rejected is reported in this way. -/
theorem rejected_reported {text : String} {error : Error} (rejected : parse text = .error error) :
    ∃ fault before behind attempts, error = .malformed text fault ∧
      Reported text before behind fault attempts := by
  obtain ⟨fault, isError, reads⟩ := parse_error rejected
  have runs : Runs (.rule .input) 0 text.toList .none (.failed fault.attempts) := by
    obtain ⟨_, _, _, accepted, -⟩ | ⟨other, refused, runs⟩ := runs_input text.toList
    · cases reads.symm.trans accepted
    · cases reads.symm.trans refused
      exact runs
  obtain ⟨before, behind, tokens, state, split, solid, scans, front, folds, rfl⟩ :=
    reached_of_fault reads
  have complete : (scan false 0 before).complete = true := by rw [scans]
  obtain ⟨final, row⟩ := row_of_scan complete
  have whole : text = String.ofList before ++ String.ofList behind := by
    rw [← String.ofList_append, ← split, String.ofList_toList]
  have size : (String.ofList before).utf8ByteSize = before.length := by
    rw [String.utf8ByteSize_ofList, utf8_len_of_ascii row.ascii]
  refine ⟨_, .ofList before, .ofList behind, _, isError, Nat.sub_self _, ?_, ?_, whole, size, ?_,
    ?_, ?_, ?_, runs, rfl, ?_⟩
  · rw [whole, String.utf8ByteSize_append, size]
    exact Nat.le_add_right _ _
  · exact String.Pos.Raw.isValid_iff_exists_append.2 ⟨_, _, whole, by rw [← size]; rfl⟩
  · rwa [String.toList_ofList]
  · rwa [String.toList_ofList]
  · rwa [String.toList_ofList, scans]
  · rw [String.toList_ofList, scans, message_eq_report, expected_behind folds]
  · rw [Fault.terms_attempts]
    rfl

/-- Inside the arguments of a call, an operand is followed by something that is no operator. -/
theorem reported_inside_call :
    parse "f(a b" = .error (.malformed "f(a b" ⟨4, .operator⟩) ∧
      ∃ before behind attempts, Reported "f(a b" before behind ⟨4, .operator⟩ attempts := by
  have rejected : parse "f(a b" = .error (.malformed "f(a b" ⟨4, .operator⟩) := by cbv
  obtain ⟨fault, before, behind, attempts, same, reported⟩ := rejected_reported rejected
  cases same
  exact ⟨rejected, before, behind, attempts, reported⟩

end ImageGraph.Expr
