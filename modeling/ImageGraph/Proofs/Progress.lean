import ImageGraph.Proofs.Reading
import ImageGraph.Proofs.Scanning

/-!
Reading on from some place in a text. Where a state admits the next token, reading goes on behind
that token. Where it does not, the fault is there.
-/

set_option autoImplicit false

namespace ImageGraph.Expr

namespace Token

/-- The characters that a token could go on with. -/
def continues : Token → Char → Bool
  | operator meaning => extended meaning
  | number _ | word _ | label _ | resolution _ _ => isHeightChar
  | _ => fun _ => false

variable {chars behind : List Char} {token : Token}

theorem extended_cases {operator : Operator} {char : Char}
    (isLonger : extended operator char = true) :
    (operator, char) ∈ [(.blend .subtract, '>'), (.blend .subtract, '-'), (.blend .add, '+'),
      (.blend .multiply, '*')] := by
  have table : (Operator.all.all fun operator => Operator.all.all fun longer =>
      longer.symbol.toList.all fun char =>
        !(operator.symbol.toList ++ [char]).isPrefixOf longer.symbol.toList ||
          decide ((operator, char) ∈ [(.blend .subtract, '>'), (.blend .subtract, '-'),
            (.blend .add, '+'), (.blend .multiply, '*')])) = true := by
    decide
  obtain ⟨longer, listed, fits⟩ := List.any_eq_true.1 isLonger
  have inside : char ∈ longer.symbol.toList :=
    (List.isPrefixOf_iff_prefix.1 fits).subset (by simp)
  have row := List.all_eq_true.1 (List.all_eq_true.1 table operator operator.mem_all) longer listed
  have known := List.all_eq_true.1 row char inside
  rw [fits] at known
  exact of_decide_eq_true known

/-- The characters in front of a text are read as a token. -/
def IsRead (afterOperand : Bool) (token : Token) (chars behind : List Char) : Prop :=
  ∃ first rest, chars ++ behind = first :: rest ∧
    read? afterOperand first rest = some (token, behind)

/-- A spelling is read as its token in front of a text that does not go on with it. -/
theorem Spelling.is_read (spelled : Spelling token chars) {afterOperand : Bool}
    (suits : token.suits afterOperand = true) (ends : Leaves token.continues behind) :
    IsRead afterOperand token chars behind := by
  obtain ⟨first, rest, rfl, alone⟩ := read_of_spelling spelled suits
  refine ⟨first, rest ++ behind, rfl, ?_⟩
  have operand (isOperand : afterOperand = false) (ends : Leaves isHeightChar behind) :
      read? afterOperand first (rest ++ behind) = some (token, behind) := by
    subst isOperand
    rw [read_operand_append ends, alone]
    rfl
  generalize whole : first :: rest = chars at spelled
  cases spelled with
  | minus =>
      obtain rfl : afterOperand = false := by simpa [Token.suits] using suits
      cases whole
      rfl
  | operator operator =>
      obtain rfl : afterOperand = true := suits
      have unpunctuated : punctuation? first = none := by
        rcases operator with mode | _
        · cases mode <;> (cases whole; rfl)
        · cases whole
          rfl
      unfold read?
      rw [unpunctuated, ← List.cons_append, whole]
      exact operator_of_symbol ends
  | punctuation isPunctuation =>
      cases whole
      rw [read?, isPunctuation]
      rfl
  | whole | pointed | word | label | resolution =>
      exact operand (by simpa [Token.suits] using suits) ends

theorem punctuation_injective {char other : Char} (isPunctuation : punctuation? char = some token)
    (isAlso : punctuation? other = some token) : other = char := by
  unfold punctuation? at isPunctuation isAlso
  split at isPunctuation <;> cases isPunctuation <;> split at isAlso <;> cases isAlso <;> rfl

theorem punctuation_of_read {afterOperand : Bool} {first char : Char} {rest : List Char}
    (isPunctuation : punctuation? char = some token)
    (read : read? afterOperand first rest = some (token, behind)) : first = char := by
  obtain ⟨chars, begins, spelled⟩ := read_spelled read
  generalize same : token = other at spelled
  cases spelled with
  | punctuation again =>
      cases begins
      subst same
      exact punctuation_injective isPunctuation again
  | _ =>
      subst same
      unfold punctuation? at isPunctuation
      split at isPunctuation <;> cases isPunctuation

end Token

open Token

def blanks (chars : List Char) : Nat := (chars.takeWhile isGap).length

def unpadded (chars : List Char) : List Char := chars.dropWhile isGap

theorem unpadded_solid (chars : List Char) : Leaves isGap (unpadded chars) := by
  intro char member
  have solid := List.head?_dropWhile_not isGap chars
  rw [show (chars.dropWhile isGap).head? = some char from member] at solid
  exact solid

def Bracket.closer : Bracket → Char
  | .array => ']'
  | .group | .call _ => ')'

/-- Whether a text begins with an operand, or with a minus sign. -/
def beginsOperand : List Char → Bool
  | [] => false
  | first :: rest => first == '(' || first == '[' || (operand? first rest).isSome

namespace State

variable {state next : State} {placed : Placed}

def isBehind (state : State) : Bool :=
  match state.phase with
  | .operand => false
  | _ => true

theorem step_cases (taken : state.step placed = .ok next) :
    (state.isBehind = false ∧ state.stepOperand placed = some next) ∨
      (state.isBehind = true ∧ state.stepOperator placed = some next) := by
  unfold step at taken
  unfold isBehind
  cases phase : state.phase with
  | operand =>
      simp only [phase] at taken
      cases stepped : state.stepOperand placed with
      | none => simp [stepped] at taken
      | some after => exact .inl ⟨rfl, by simpa [stepped] using taken⟩
  | _ =>
      simp only [phase] at taken
      cases stepped : state.stepOperator placed with
      | none => simp [stepped] at taken
      | some after => exact .inr ⟨rfl, by simpa [stepped] using taken⟩

theorem step_refused (refused : ∀ next, state.step placed ≠ .ok next) :
    state.step placed = .error ⟨placed.span.start, state.expected⟩ := by
  cases taken : state.step placed with
  | ok next => exact absurd taken (refused next)
  | error fault =>
      unfold step at taken
      simp only at taken
      split at taken
      · cases taken
      · rw [← taken]

/-- What a token does to the brackets that are open, and what may come behind it. -/
def Effect (state next : State) : Token → Prop
  | .minus | .operator _ =>
      next.isBehind = false ∧ next.level.isBegun = true ∧ next.opened = state.opened
  | .comma => next.isBehind = false ∧ next.level.isBegun = false ∧ next.opened = state.opened
  | .openParen | .openBracket =>
      next.isBehind = false ∧ next.level.isBegun = false ∧ ∃ top, next.opened = top :: state.opened
  | .closeParen | .closeBracket =>
      next.isBehind = true ∧ ∃ top, state.opened = top :: next.opened
  | .number _ | .word _ | .label _ | .resolution _ _ =>
      next.isBehind = true ∧ next.opened = state.opened

theorem close_paren_effect {stop : Nat} (closes : state.closeParen? stop = some next) :
    next.isBehind = true ∧ ∃ top, state.opened = top :: next.opened := by
  unfold closeParen? at closes
  split at closes
  · rename_i isOpen
    obtain ⟨items, -, rfl⟩ := Option.map_eq_some_iff.1 closes
    exact ⟨rfl, _, isOpen⟩
  · rename_i isOpen
    obtain ⟨latest, -, rfl⟩ := Option.map_eq_some_iff.1 closes
    exact ⟨rfl, _, isOpen⟩
  · cases closes

theorem close_bracket_effect {stop : Nat} (closes : state.closeBracket? stop = some next) :
    next.isBehind = true ∧ ∃ top, state.opened = top :: next.opened := by
  unfold closeBracket? at closes
  split at closes
  · rename_i isOpen
    obtain ⟨items, -, rfl⟩ := Option.map_eq_some_iff.1 closes
    exact ⟨rfl, _, isOpen⟩
  · cases closes

theorem step_operand_effect {token : Token} {span : Span} (awaits : state.isBehind = false)
    (taken : state.stepOperand ⟨token, span⟩ = some next) : state.Effect next token := by
  cases token with
  | minus =>
      cases taken
      exact ⟨awaits, by simp [Level.isBegun], rfl⟩
  | openParen | openBracket =>
      cases taken
      exact ⟨rfl, rfl, _, rfl⟩
  | closeParen => exact close_paren_effect taken
  | closeBracket => exact close_bracket_effect taken
  | number decimal | label name | resolution width height | word name =>
      cases taken
      exact ⟨rfl, rfl⟩
  | operator operator => cases taken
  | comma => cases taken

theorem step_operator_effect {token : Token} {span : Span}
    (taken : state.stepOperator ⟨token, span⟩ = some next) : state.Effect next token := by
  cases token with
  | operator operator =>
      obtain ⟨latest, -, rfl⟩ := Option.map_eq_some_iff.1 taken
      exact ⟨rfl, rfl, rfl⟩
  | comma =>
      simp only [stepOperator, comma?] at taken
      split at taken
      · cases taken
      · cases taken
      · obtain ⟨latest, -, rfl⟩ := Option.map_eq_some_iff.1 taken
        exact ⟨rfl, rfl, rfl⟩
  | openParen =>
      simp only [stepOperator] at taken
      split at taken
      · cases taken
        exact ⟨rfl, rfl, _, rfl⟩
      · cases taken
  | closeParen => exact close_paren_effect taken
  | closeBracket => exact close_bracket_effect taken
  | _ => cases taken

theorem step_effect {token : Token} {span : Span} (taken : state.step ⟨token, span⟩ = .ok next) :
    state.Effect next token :=
  (step_cases taken).elim (fun operand => step_operand_effect operand.1 operand.2)
    fun operator => step_operator_effect operator.2

theorem Effect.is_behind {token : Token} (effect : state.Effect next token) :
    next.isBehind = token.endsOperand := by
  cases token <;> exact effect.1

def readFrom (state : State) (offset : Nat) (chars : List Char) : Except Fault Expr := do
  let scan := scan state.isBehind offset chars
  let final ← scan.tokens.foldlM step state
  final.finish scan

theorem read_chars_eq (chars : List Char) : readChars chars = initial.readFrom 0 chars := rfl

section ReadFrom

variable {spelling behind chars rest : List Char} {first : Char} {token : Token}

theorem scan_unpadded (afterOperand : Bool) (offset : Nat) (chars : List Char) :
    scan afterOperand (offset + blanks chars) (unpadded chars) =
      scan afterOperand offset chars := by
  have solid := unpadded_solid chars
  have again : (unpadded chars).dropWhile isGap = unpadded chars := solid.drop
  have none : (unpadded chars).takeWhile isGap = [] := solid.take
  cases begins : unpadded chars with
  | nil =>
      rw [begins] at again none
      rw [scan_blank again, scan_blank begins, none]
      rfl
  | cons first rest =>
      rw [begins] at again none
      cases read : read? afterOperand first rest with
      | none =>
          rw [scan_fault again read, scan_fault begins read, none]
          rfl
      | some reading =>
          obtain ⟨token, behind⟩ := reading
          rw [scan_token again read, scan_token begins read, none]
          rfl

theorem read_from_unpadded (state : State) (offset : Nat) (chars : List Char) :
    state.readFrom (offset + blanks chars) (unpadded chars) = state.readFrom offset chars := by
  simp only [readFrom, scan_unpadded]

theorem read_from_gaps {gap : List Char} (gaps : ∀ char ∈ gap, isGap char = true) (state : State)
    (offset : Nat) (chars : List Char) :
    state.readFrom offset (gap ++ chars) = state.readFrom (offset + gap.length) chars := by
  have length : blanks (gap ++ chars) = gap.length + blanks chars := by
    rw [blanks, List.takeWhile_append_of_pos gaps, List.length_append]
    rfl
  have same : unpadded (gap ++ chars) = unpadded chars := List.dropWhile_append_of_pos gaps
  rw [← read_from_unpadded, ← read_from_unpadded state (offset + gap.length), length, same,
    Nat.add_assoc]

theorem read_from_token {offset : Nat} (isRead : IsRead state.isBehind token spelling behind)
    (taken : state.step ⟨token, ⟨offset, offset + spelling.length⟩⟩ = .ok next) :
    state.readFrom offset (spelling ++ behind) =
      next.readFrom (offset + spelling.length) behind := by
  obtain ⟨first, rest, begins, read⟩ := isRead
  have solid := not_gap_of_read read
  have dropped : (first :: rest).dropWhile isGap = first :: rest := by simp [solid]
  have none : (first :: rest).takeWhile isGap = [] := by simp [solid]
  have length : (first :: rest).length - behind.length = spelling.length := by
    rw [← begins, List.length_append]
    omega
  unfold readFrom
  rw [begins, scan_token dropped read]
  simp only [none, List.length_nil, Nat.add_zero, length]
  rw [fold_cons taken, (step_effect taken).is_behind]
  rfl

theorem read_from_char {offset : Nat} {char : Char}
    (read : read? state.isBehind char rest = some (token, rest))
    (taken : state.step ⟨token, ⟨offset, offset + 1⟩⟩ = .ok next) :
    state.readFrom offset (char :: rest) = next.readFrom (offset + 1) rest := by
  have isRead : IsRead state.isBehind token [char] rest := ⟨char, rest, rfl, read⟩
  exact read_from_token isRead taken

theorem read_from_refused (offset : Nat) (solid : Leaves isGap chars)
    (unended : chars = [] → state.result? = none)
    (refuses : ∀ first rest token behind span, chars = first :: rest →
      read? state.isBehind first rest = some (token, behind) →
        ∀ next, state.step ⟨token, span⟩ ≠ .ok next) :
    state.readFrom offset chars = .error ⟨offset, state.expected⟩ := by
  have dropped : chars.dropWhile isGap = chars := solid.drop
  have none : chars.takeWhile isGap = [] := solid.take
  unfold readFrom
  cases chars with
  | nil =>
      simp only [scan_blank dropped]
      simp [pure, Except.pure, bind, Except.bind, finish, unended rfl]
  | cons first rest =>
      cases read : read? state.isBehind first rest with
      | none =>
          simp only [scan_fault dropped read, none]
          simp [pure, Except.pure, bind, Except.bind, finish]
      | some reading =>
          obtain ⟨token, behind⟩ := reading
          have refused := step_refused (refuses first rest token behind
            ⟨offset, offset + ((first :: rest).length - behind.length)⟩ rfl read)
          simp only [scan_token dropped read, none, List.length_nil, Nat.add_zero,
            List.foldlM_cons, refused]
          rfl

end ReadFrom

section Moves

variable {opened : List Open} {level outside : Level} {latest value : Expr} {offset start : Nat}
  {token : Token} {spelling rest : List Char} {bracket : Bracket}

theorem read_from_minus :
    readFrom ⟨opened, level, .operand⟩ offset ('-' :: rest) =
      readFrom ⟨opened, { level with minuses := offset :: level.minuses }, .operand⟩ (offset + 1)
        rest :=
  read_from_char rfl (step_operand rfl rfl)

theorem read_from_paren :
    readFrom ⟨opened, level, .operand⟩ offset ('(' :: rest) =
      readFrom ⟨⟨.group, offset, level⟩ :: opened, .fresh, .operand⟩ (offset + 1) rest :=
  read_from_char rfl (step_operand rfl rfl)

theorem read_from_bracket :
    readFrom ⟨opened, level, .operand⟩ offset ('[' :: rest) =
      readFrom ⟨⟨.array, offset, level⟩ :: opened, .fresh, .operand⟩ (offset + 1) rest :=
  read_from_char rfl (step_operand rfl rfl)

theorem read_from_atom (isRead : IsRead false token spelling rest)
    (isAtom : atom? token ⟨offset, offset + spelling.length⟩ = some value) :
    readFrom ⟨opened, level, .operand⟩ offset (spelling ++ rest) =
      readFrom ⟨opened, level, .operator (level.signed value)⟩ (offset + spelling.length) rest := by
  refine read_from_token isRead (step_operand rfl ?_)
  cases token <;> simp_all [stepOperand, atom?, complete]

theorem read_from_word {name : String} (isRead : IsRead false (.word name) spelling rest) :
    readFrom ⟨opened, level, .operand⟩ offset (spelling ++ rest) =
      readFrom ⟨opened, level, .word name ⟨offset, offset + spelling.length⟩⟩
        (offset + spelling.length) rest :=
  read_from_token isRead (step_operand rfl rfl)

/-- Behind a word, only an opening parenthesis needs to know that it was a word. -/
theorem read_from_uncalled (name : String) (span : Span)
    (noCall : (unpadded rest).head? ≠ some '(') :
    readFrom ⟨opened, level, .word name span⟩ offset rest =
      readFrom ⟨opened, level, .operator (level.signed (.identifier name span))⟩ offset rest := by
  have same (placed : Placed) (noParen : placed.token ≠ .openParen) :
      step ⟨opened, level, .word name span⟩ placed =
        step ⟨opened, level, .operator (level.signed (.identifier name span))⟩ placed := by
    obtain ⟨token, _⟩ := placed
    cases token with
    | openParen => exact absurd rfl noParen
    | _ => rfl
  rw [← read_from_unpadded, ← read_from_unpadded _ offset]
  have dropped : (unpadded rest).dropWhile isGap = unpadded rest := (unpadded_solid rest).drop
  unfold readFrom isBehind
  cases begins : unpadded rest with
  | nil =>
      rw [begins] at dropped
      simp only [scan_blank dropped]
      rfl
  | cons first behind =>
      rw [begins] at dropped noCall
      cases read : read? true first behind with
      | none =>
          simp only [scan_fault dropped read]
          rfl
      | some reading =>
          obtain ⟨token, left⟩ := reading
          have noParen : token ≠ .openParen := by
            rintro rfl
            exact noCall (congrArg some (punctuation_of_read rfl read))
          simp only [scan_token dropped read, List.foldlM_cons]
          rw [same _ noParen]

theorem read_from_name {name : String} (isRead : IsRead false (.word name) spelling rest)
    (noCall : (unpadded rest).head? ≠ some '(') :
    readFrom ⟨opened, level, .operand⟩ offset (spelling ++ rest) =
      readFrom ⟨opened, level, .operator (level.signed
        (.identifier name ⟨offset, offset + spelling.length⟩))⟩ (offset + spelling.length) rest :=
  (read_from_word isRead).trans (read_from_uncalled _ _ noCall)

theorem read_from_call {name : String} {inside : List Char}
    (isRead : IsRead false (.word name) spelling rest) (opens : unpadded rest = '(' :: inside) :
    readFrom ⟨opened, level, .operand⟩ offset (spelling ++ rest) =
      readFrom ⟨⟨.call name, offset, level⟩ :: opened, .fresh, .operand⟩
        (offset + spelling.length + blanks rest + 1) inside := by
  rw [read_from_word isRead, ← read_from_unpadded, opens]
  exact read_from_char rfl rfl

theorem read_from_operator {operator : Operator}
    (isRead : IsRead true (.operator operator) operator.symbol.toList rest) :
    readFrom ⟨opened, level, .operator latest⟩ offset (operator.symbol.toList ++ rest) =
      readFrom ⟨opened, level.extend latest operator, .operand⟩
        (offset + operator.symbol.toList.length) rest :=
  read_from_token isRead <| step_infix rfl operator _

theorem read_from_comma (lists : mayList opened = true) :
    readFrom ⟨opened, level, .operator latest⟩ offset (',' :: rest) =
      readFrom ⟨opened, level.nextItem latest, .operand⟩ (offset + 1) rest :=
  read_from_char rfl (step_comma rfl lists _)

theorem read_from_end :
    readFrom ⟨[], level, .operator latest⟩ offset [] = .ok (level.chain latest) := by
  unfold readFrom
  rw [scan_blank rfl]
  rfl

theorem read_from_close (bracket : Bracket) (start : Nat) (outside : Level) :
    ∃ whole, readFrom ⟨⟨bracket, start, outside⟩ :: opened, level, .operator latest⟩ offset
        (bracket.closer :: rest) =
      readFrom ⟨opened, outside, .operator whole⟩ (offset + 1) rest := by
  cases bracket with
  | array =>
      exact ⟨_, read_from_char rfl (step_close_bracket rfl)⟩
  | group | call =>
      exact ⟨_, read_from_char rfl (step_close_paren rfl)⟩

theorem may_list (notGroup : bracket ≠ .group) (start : Nat) (outside : Level)
    (opened : List Open) : mayList (⟨bracket, start, outside⟩ :: opened) = true := by
  cases bracket with
  | group => exact absurd rfl notGroup
  | array | call => rfl

theorem read_from_close_empty (notGroup : bracket ≠ .group) (start : Nat) (outside : Level) :
    ∃ whole, readFrom ⟨⟨bracket, start, outside⟩ :: opened, .fresh, .operand⟩ offset
        (bracket.closer :: rest) =
      readFrom ⟨opened, outside, .operator whole⟩ (offset + 1) rest := by
  cases bracket with
  | group => exact absurd rfl notGroup
  | array =>
      exact ⟨_, read_from_char rfl (step_close_bracket rfl)⟩
  | call =>
      exact ⟨_, read_from_char rfl (step_close_paren rfl)⟩

/-- Where no operand begins there is a fault, but an empty list may be closed. -/
theorem read_from_no_operand (solid : Leaves isGap rest) (none : beginsOperand rest = false)
    (unclosed : level.mayCloseEmpty = true → ∀ top others, opened = top :: others →
      top.bracket ≠ .group → rest.head? ≠ some top.bracket.closer) :
    readFrom ⟨opened, level, .operand⟩ offset rest =
      .error ⟨offset, if level.isBegun then .operand else .expression⟩ := by
  refine read_from_refused offset solid (fun _ => ?_) ?_
  · simp [result?, latest?]
  · rintro first rest token behind span rfl read next taken
    obtain ⟨-, stepped⟩ | ⟨isBehind, -⟩ := step_cases taken
    · unfold read? at read
      split at read
      · rename_i isPunctuation
        cases read
        unfold punctuation? at isPunctuation
        split at isPunctuation <;> cases isPunctuation
        case h_1 | h_3 => simp [beginsOperand] at none
        case h_2 =>
          simp only [stepOperand, closeParen?] at stepped
          split at stepped
          · obtain ⟨items, closing, -⟩ := Option.map_eq_some_iff.1 stepped
            simp only [closing?, latest?] at closing
            split at closing
            · rename_i empty
              exact unclosed empty _ _ rfl (by simp) rfl
            · cases closing
          · cases stepped
          · cases stepped
        case h_4 =>
          simp only [stepOperand, closeBracket?] at stepped
          split at stepped
          · obtain ⟨items, closing, -⟩ := Option.map_eq_some_iff.1 stepped
            simp only [closing?, latest?] at closing
            split at closing
            · rename_i empty
              exact unclosed empty _ _ rfl (by simp) rfl
            · cases closing
          · cases stepped
        case h_5 => cases stepped
      · have begins : operand? first rest = some (token, behind) := read
        simp [beginsOperand, begins] at none
    · cases isBehind

/-- Behind an operand there must be an operator, a comma in a list, the bracket that closes, or the
end. -/
theorem read_from_no_operator (solid : Leaves isGap rest) (none : operator? rest = none)
    (unended : rest = [] → opened ≠ [])
    (unlisted : rest.head? = some ',' → mayList opened = false)
    (unclosed : ∀ top others, opened = top :: others → rest.head? ≠ some top.bracket.closer) :
    readFrom ⟨opened, level, .operator latest⟩ offset rest =
      .error ⟨offset, if opened.isEmpty then .operatorOrEnd else .operator⟩ := by
  refine read_from_refused offset solid (fun ended => ?_) ?_
  · simp [result?, unended ended]
  · rintro first rest token behind span rfl read next taken
    obtain ⟨awaits, -⟩ | ⟨-, stepped⟩ := step_cases taken
    · cases awaits
    · unfold read? at read
      split at read
      · rename_i isPunctuation
        cases read
        unfold punctuation? at isPunctuation
        split at isPunctuation <;> cases isPunctuation
        case h_1 | h_3 => cases stepped
        case h_2 =>
          simp only [stepOperator, closeParen?] at stepped
          split at stepped
          · exact unclosed _ _ rfl rfl
          · exact unclosed _ _ rfl rfl
          · cases stepped
        case h_4 =>
          simp only [stepOperator, closeBracket?] at stepped
          split at stepped
          · exact unclosed _ _ rfl rfl
          · cases stepped
        case h_5 =>
          have noList := unlisted rfl
          simp only [stepOperator, comma?] at stepped
          split at stepped
          · cases stepped
          · cases stepped
          · unfold mayList at noList
            split at noList <;> simp_all
      · have found : operator? (first :: rest) = some (token, behind) := read
        rw [none] at found
        cases found

end Moves

end State

end ImageGraph.Expr
