import ImageGraph.Proofs.Placing
import ImageGraph.Proofs.Rejection

/-!
Locality of reading. What stands in front of a text moves the spans of what is read in it and changes
nothing else, and the tokens of a primary are read alone as they are read inside a longer text.
-/

set_option autoImplicit false

namespace ImageGraph

def Span.shift (distance : Nat) (span : Span) : Span :=
  ⟨span.start + distance, span.stop + distance⟩

namespace Expr

mutual

/-- An expression with all its spans moved towards the end of the text. -/
def shift (distance : Nat) : Expr → Expr
  | number value span => number value (span.shift distance)
  | identifier name span => identifier name (span.shift distance)
  | resolution width height span => resolution width height (span.shift distance)
  | array items span => array (shiftAll distance items) (span.shift distance)
  | call function arguments span => call function (shiftAll distance arguments) (span.shift distance)
  | negation operand span => negation (operand.shift distance) (span.shift distance)
  | binary operator first second span =>
      binary operator (first.shift distance) (second.shift distance) (span.shift distance)

def shiftAll (distance : Nat) : List Expr → List Expr
  | [] => []
  | first :: others => first.shift distance :: shiftAll distance others

end

open Token

theorem shift_all_append (distance : Nat) (items more : List Expr) :
    shiftAll distance (items ++ more) = shiftAll distance items ++ shiftAll distance more := by
  induction items with
  | nil => rfl
  | cons first others induction =>
      rw [List.cons_append, shiftAll, shiftAll, induction, List.cons_append]

theorem span_shift (distance : Nat) (expression : Expr) :
    (expression.shift distance).span = expression.span.shift distance := by
  cases expression <;> rfl

theorem join_shift (distance : Nat) (operator : Operator) (first second : Expr) :
    join operator (first.shift distance) (second.shift distance) =
      (join operator first second).shift distance := by
  rw [join, join, shift, span_shift, span_shift]
  rfl

theorem negate_shift (distance : Nat) (operand : Expr) (start : Nat) :
    (operand.shift distance).negate (start + distance) =
      (operand.negate start).shift distance := by
  rw [negate, negate, shift, span_shift]
  rfl

def Operand.shift (distance : Nat) (operand : Operand) : Operand :=
  ⟨operand.minuses.map (· + distance), operand.primary.shift distance⟩

theorem Operand.expr_shift (distance : Nat) (operand : Operand) :
    (operand.shift distance).expr = operand.expr.shift distance := by
  obtain ⟨minuses, primary⟩ := operand
  induction minuses with
  | nil => rfl
  | cons start minuses induction =>
      exact (congrArg (negate · (start + distance)) induction).trans (negate_shift _ _ _)

theorem Grouping.expr_shift (distance : Nat) (grouping : Grouping Expr) :
    (grouping.map (Expr.shift distance)).expr = grouping.expr.shift distance := by
  induction grouping with
  | operand only => rfl
  | join operator left right leftInduction rightInduction =>
      rw [Grouping.map, Grouping.expr, leftInduction, rightInduction, join_shift, Grouping.expr]

theorem Chain.signed_shift (distance : Nat) (chain : Chain Operand) :
    (chain.map (Operand.shift distance)).signedExpr = chain.signedExpr.shift distance := by
  have operands : (chain.map (Operand.shift distance)).map Operand.expr =
      (chain.map Operand.expr).map (Expr.shift distance) := by
    simp only [map, List.map_map, Function.comp_def, Operand.expr_shift]
  rw [signedExpr, operands, Chain.expr, ← Grouping.map_grouping, Grouping.expr_shift]
  rfl

def Placed.shift (distance : Nat) (placed : Placed) : Placed :=
  ⟨placed.token, placed.span.shift distance⟩

def Part.shift (distance : Nat) : Part → Part
  | primary value => primary (value.shift distance)
  | operand signed => operand (signed.shift distance)
  | whole chain => whole (chain.map (Operand.shift distance))
  | items list => items (shiftAll distance list)

theorem atom_shift (distance : Nat) {token : Token} {span : Span} {value : Expr}
    (isAtom : State.atom? token span = some value) :
    State.atom? token (span.shift distance) = some (value.shift distance) := by
  cases token with
  | number | label | resolution =>
      cases isAtom
      rfl
  | _ => cases isAtom

/-- Tokens that stand further behind are read as the part with its spans moved. -/
theorem Reads.shift (distance : Nat) {tokens : List Placed} {part : Part}
    (reads : Reads tokens part) :
    Reads (tokens.map (Placed.shift distance)) (part.shift distance) := by
  induction reads with
  | atom isAtom => exact .atom (atom_shift distance isAtom)
  | name word span => exact .name word (span.shift distance)
  | group left right inside moved =>
      rw [List.map_cons, List.map_append, Part.shift, ← Chain.signed_shift]
      exact .group (left.shift distance) (right.shift distance) moved
  | array left right inside moved =>
      rw [List.map_cons, List.map_append]
      exact .array (left.shift distance) (right.shift distance) moved
  | call function name left right inside moved =>
      rw [List.map_cons, List.map_cons, List.map_append]
      exact .call function (name.shift distance) (left.shift distance) (right.shift distance) moved
  | plain reads moved => exact .plain moved
  | minus span behind moved => exact .minus (span.shift distance) moved
  | single reads moved => exact .single moved
  | extend operator span before behind moved lastMoved =>
      rw [List.map_append, List.map_cons, Part.shift, Chain.map_extend]
      exact .extend operator (span.shift distance) moved lastMoved
  | none => exact .none
  | one reads moved =>
      rw [Part.shift, shiftAll, shiftAll, ← Chain.signed_shift]
      exact .one moved
  | comma span before behind moved lastMoved =>
      rw [List.map_append, List.map_cons, Part.shift, shift_all_append, shiftAll, shiftAll, shiftAll,
        ← Chain.signed_shift]
      exact .comma (span.shift distance) moved lastMoved

section Scanned

variable {afterOperand : Bool} {offset : Nat} {chars : List Char} {placed : Placed}
  {front back others : List Placed}

def Scan.shift (distance : Nat) (scan : Scan) : Scan :=
  ⟨scan.tokens.map (Placed.shift distance), scan.stop + distance, scan.complete⟩

theorem scan_shift (distance : Nat) (afterOperand : Bool) (offset : Nat) (chars : List Char) :
    scan afterOperand (offset + distance) chars =
      (scan afterOperand offset chars).shift distance := by
  induction size : chars.length using Nat.strong_induction_on
    generalizing chars afterOperand offset with
  | _ size induction =>
  subst size
  obtain ⟨gap, rest, rfl, gaps, -, following⟩ := scan_cases afterOperand chars
  rcases following with ⟨complete, -, ends⟩ | ⟨token, spelling, behind, rfl, isRead⟩
  · rw [ends, ends, Scan.shift, Nat.add_right_comm]
    rfl
  · have shorter : behind.length < (gap ++ (spelling ++ behind)).length := by
      have positive := isRead.length_pos
      simp only [List.length_append]
      omega
    have start : offset + distance + gap.length = offset + gap.length + distance := by omega
    have stop : offset + gap.length + distance + spelling.length =
        offset + gap.length + spelling.length + distance := by omega
    simp only [scan_read gaps isRead, start, stop, induction _ shorter _ _ _ rfl]
    rfl

theorem scan_first (parts : (scan afterOperand offset chars).tokens = placed :: others) :
    ∃ gap token spelling behind, chars = gap ++ (spelling ++ behind) ∧
      placed = ⟨token, ⟨offset + gap.length, offset + gap.length + spelling.length⟩⟩ ∧
      (∀ char ∈ gap, isGap char = true) ∧ IsRead afterOperand token spelling behind ∧
      (scan token.endsOperand (offset + gap.length + spelling.length) behind).tokens = others := by
  obtain ⟨gap, rest, rfl, gaps, -, following⟩ := scan_cases afterOperand chars
  rcases following with ⟨complete, -, ends⟩ | ⟨token, spelling, behind, rfl, isRead⟩
  · rw [ends] at parts
    cases parts
  · rw [scan_read gaps isRead] at parts
    obtain ⟨rfl, tail⟩ := List.cons.inj parts
    exact ⟨gap, token, spelling, behind, rfl, rfl, gaps, isRead, tail⟩

theorem offset_behind (offset : Nat) (gap spelling before : List Char) :
    offset + (gap ++ (spelling ++ before)).length =
      offset + gap.length + spelling.length + before.length := by
  rw [List.length_append, List.length_append, ← Nat.add_assoc, ← Nat.add_assoc]

theorem scan_behind (parts : (scan afterOperand offset chars).tokens = front ++ back) :
    ∃ before behind mode, chars = before ++ behind ∧ Leaves isGap behind ∧
      (scan mode (offset + before.length) behind).tokens = back := by
  induction front generalizing afterOperand offset chars with
  | nil =>
      exact ⟨chars.takeWhile isGap, unpadded chars, afterOperand,
        List.takeWhile_append_dropWhile.symm, unpadded_solid chars,
        (congrArg Scan.tokens (State.scan_unpadded afterOperand offset chars)).trans parts⟩
  | cons placed front induction =>
      obtain ⟨gap, token, spelling, behind, rfl, -, -, -, tail⟩ := scan_first parts
      obtain ⟨before, left, mode, rfl, solid, scans⟩ := induction tail
      refine ⟨gap ++ (spelling ++ before), left, mode, by simp only [List.append_assoc], solid, ?_⟩
      rwa [offset_behind]

theorem start_of_solid (solid : Leaves isGap chars)
    (parts : (scan afterOperand offset chars).tokens = placed :: others) :
    placed.span.start = offset := by
  obtain ⟨gap, token, spelling, behind, rfl, rfl, gaps, -, -⟩ := scan_first parts
  cases gap with
  | nil => rfl
  | cons char gap =>
      have isGap := gaps char List.mem_cons_self
      rw [solid char rfl] at isGap
      cases isGap

theorem begins_of_scan (complete : (scan afterOperand offset chars).complete = true) :
    Begins afterOperand chars := by
  obtain ⟨gap, rest, rfl, gaps, -, following⟩ := scan_cases afterOperand chars
  rcases following with ⟨ended, isEnd, ends⟩ | ⟨token, spelling, behind, rfl, isRead⟩
  · rw [ends] at complete
    obtain rfl := isEnd complete
    rw [List.append_nil]
    exact fun char member => .inl (gaps char (List.mem_of_mem_head? member))
  · exact isRead.begins gaps

theorem scan_until (parts : (scan afterOperand offset chars).tokens = placed :: others ++ back) :
    ∃ before behind, chars = before ++ behind ∧
      scan afterOperand offset before = ⟨placed :: others, offset + before.length, true⟩ ∧
      (placed :: others).getLast?.map (·.span.stop) = some (offset + before.length) := by
  induction others generalizing afterOperand offset chars placed with
  | nil =>
      obtain ⟨gap, token, spelling, behind, rfl, rfl, gaps, isRead, -⟩ := scan_first parts
      have isRead : IsRead afterOperand token spelling ([] ++ behind) := isRead
      have alone := isRead.without (by intro char member; cases member)
      refine ⟨gap ++ (spelling ++ []), behind, by simp only [List.append_assoc, List.nil_append],
        ?_, by rw [offset_behind]; rfl⟩
      rw [scan_read gaps alone, offset_behind]
      simp only [scan_blank List.dropWhile_nil]
      rfl
  | cons next others induction =>
      obtain ⟨gap, token, spelling, behind, rfl, rfl, gaps, isRead, tail⟩ := scan_first parts
      obtain ⟨before, left, rfl, scans, last⟩ := induction tail
      -- What is left begins with a blank or the next token, so the first token does not go on.
      have alone := isRead.without (begins_of_scan (by rw [scans]))
      refine ⟨gap ++ (spelling ++ before), left, by simp only [List.append_assoc], ?_, ?_⟩
      · rw [scan_read gaps alone, offset_behind]
        simp only [scans]
      · rw [List.getLast?_cons_cons, last, offset_behind]

theorem scan_as_operand (suits : placed.token.suits false = true)
    (parts : (scan afterOperand offset chars).tokens = placed :: others) :
    scan false offset chars = scan afterOperand offset chars := by
  obtain ⟨gap, token, spelling, behind, rfl, rfl, gaps, isRead, -⟩ := scan_first parts
  have anywhere : IsRead false token spelling behind := by
    obtain ⟨first, rest, begins, read⟩ := isRead
    refine ⟨first, rest, begins, ?_⟩
    cases afterOperand with
    | false => exact read
    | true =>
        unfold read? at read ⊢
        split at read
        · exact read
        · obtain ⟨operator, -, same⟩ := Option.map_eq_some_iff.1 read
          cases same
          cases suits
  rw [scan_read gaps isRead, scan_read gaps anywhere]

/-- Tokens that reach from the beginning of a span to its end. -/
def Fills (tokens : List Placed) (span : Span) : Prop :=
  tokens.head?.map (·.span.start) = some span.start ∧
    tokens.getLast?.map (·.span.stop) = some span.stop

theorem scan_alone (suits : placed.token.suits false = true)
    (parts : (scan afterOperand 0 chars).tokens = front ++ (placed :: others ++ back)) :
    ∃ before inside behind, chars = before ++ (inside ++ behind) ∧
      Fills (placed :: others) ⟨before.length, before.length + inside.length⟩ ∧
      (scan false 0 inside).shift before.length =
        ⟨placed :: others, before.length + inside.length, true⟩ := by
  obtain ⟨before, rest, mode, rfl, solid, scans⟩ := scan_behind parts
  rw [Nat.zero_add] at scans
  obtain ⟨inside, behind, rfl, cut, last⟩ := scan_until scans
  have starts := start_of_solid solid scans
  refine ⟨before, inside, behind, rfl, ⟨congrArg some starts, last⟩, ?_⟩
  rw [← scan_shift, Nat.zero_add, scan_as_operand suits (by rw [cut]), cut]

end Scanned

theorem Reads.begins {tokens : List Placed} {value : Expr} (reads : Reads tokens (.primary value)) :
    ∃ first others, tokens = first :: others ∧ first.token.suits false = true := by
  cases reads with
  | @atom placed value isAtom =>
      refine ⟨placed, [], rfl, ?_⟩
      obtain ⟨token, span⟩ := placed
      cases token <;> first | rfl | cases isAtom
  | name | group | array | call => exact ⟨_, _, rfl, rfl⟩

theorem Reads.moved_back {distance : Nat} {tokens : List Placed} {chain : Chain Operand}
    (reads : Reads (tokens.map (Placed.shift distance)) (.whole chain)) :
    ∃ again, Reads tokens (.whole again) ∧ again.signedExpr.shift distance = chain.signedExpr := by
  have same : tokens.map Placed.token =
      (tokens.map (Placed.shift distance)).map Placed.token := by
    rw [List.map_map]
    rfl
  obtain ⟨part, readsAgain, alike⟩ := reads.movable tokens same
  cases part with
  | whole again =>
      obtain ⟨final, folded, ended⟩ := State.result_of_reads (readsAgain.shift distance)
      obtain ⟨other, foldedAlso, endedAlso⟩ := State.result_of_reads reads
      cases folded.symm.trans foldedAlso
      refine ⟨again, readsAgain, ?_⟩
      rw [← Chain.signed_shift]
      exact Option.some.inj (ended.symm.trans endedAlso)
  | _ => exact alike.elim

theorem Reads.alone {chars : List Char} {front inner back : List Placed} {value : Expr}
    (parts : (scan false 0 chars).tokens = front ++ (inner ++ back))
    (reads : Reads inner (.primary value)) (fills : Fills inner value.span) :
    ∃ before inside behind self, chars = before ++ (inside ++ behind) ∧
      before.length = value.span.start ∧ before.length + inside.length = value.span.stop ∧
      readChars inside = .ok self ∧ self.shift value.span.start = value := by
  obtain ⟨first, others, rfl, suits⟩ := reads.begins
  obtain ⟨before, inside, behind, whole, extent, moved⟩ := scan_alone suits parts
  have start : before.length = value.span.start :=
    Option.some.inj (extent.1.symm.trans fills.1)
  have stop : before.length + inside.length = value.span.stop :=
    Option.some.inj (extent.2.symm.trans fills.2)
  have complete : (scan false 0 inside).complete = true := congrArg Scan.complete moved
  have tokens : (scan false 0 inside).tokens.map (Placed.shift before.length) = first :: others :=
    congrArg Scan.tokens moved
  -- A primary is a whole expression, so its text can be parsed.
  have only : Reads (first :: others) (.whole ⟨⟨[], value⟩, []⟩) := .single (.plain reads)
  rw [← tokens] at only
  obtain ⟨chain, readsAlone, same⟩ := only.moved_back
  exact ⟨before, inside, behind, chain.signedExpr, whole, start, stop,
    (read_chars_iff inside _).2 ⟨complete, chain, readsAlone, rfl⟩, start ▸ same⟩

end Expr

end ImageGraph
