import ImageGraph.Proofs.Rejection

/-!
Sound beginnings. Whatever state the reader has reached, some text leads from it to the end: a digit
if an operand is missing, and then the brackets that close what is open, from the innermost to the
outermost. So the text in front of a fault can always be completed, and the fault is not behind the
first mistake.
-/

set_option autoImplicit false

namespace ImageGraph.Expr

open Token State

theorem Token.IsRead.append {afterOperand : Bool} {token : Token} {spelling behind more : List Char}
    (isRead : IsRead afterOperand token spelling behind) (stops : Stops more) :
    IsRead afterOperand token spelling (behind ++ more) := by
  obtain ⟨first, rest, begins, read⟩ := isRead
  refine ⟨first, rest ++ more, ?_, ?_⟩
  · rw [← List.append_assoc, begins]
    rfl
  · rw [read_append stops, read]
    rfl

namespace State

/-- A text whose tokens are admitted is read, and reading goes on behind it. -/
theorem read_from_front {state next : State} {before more : List Char} {offset : Nat}
    (complete : (scan state.isBehind offset before).complete = true)
    (folds : (scan state.isBehind offset before).tokens.foldlM step state = .ok next)
    (stops : Stops more) :
    state.readFrom offset (before ++ more) = next.readFrom (offset + before.length) more := by
  induction size : before.length using Nat.strong_induction_on
    generalizing state before offset with
  | _ size induction =>
  subst size
  obtain ⟨gap, rest, rfl, gaps, -, following⟩ := scan_cases state.isBehind before
  rcases following with ⟨isComplete, empty, ends⟩ | ⟨token, spelling, behind, rfl, isRead⟩
  · rw [ends] at complete folds
    obtain rfl := empty complete
    cases folds
    rw [List.append_nil]
    exact read_from_gaps gaps _ offset more
  · have positive := isRead.length_pos
    rw [scan_read gaps isRead] at complete folds
    cases taken :
        state.step ⟨token, ⟨offset + gap.length, offset + gap.length + spelling.length⟩⟩ with
    | error fault =>
        simp only [List.foldlM_cons, taken] at folds
        cases folds
    | ok middle =>
        rw [fold_cons taken] at folds
        have isBehind : middle.isBehind = token.endsOperand := (step_effect taken).is_behind
        rw [← isBehind] at complete folds
        have others := induction behind.length (by simp only [List.length_append]; omega) complete
          folds rfl
        rw [List.append_assoc, List.append_assoc, read_from_gaps gaps,
          read_from_token (isRead.append stops) taken, others]
        simp only [List.length_append, Nat.add_assoc]

def closers (opened : List Open) : List Char := opened.map fun top => top.bracket.closer

theorem closer_stops (bracket : Bracket) : bracket.closer ∈ stops := by
  cases bracket <;> simp [Bracket.closer, stops]

theorem closers_stop (opened : List Open) : Stops (closers opened) := by
  intro char member
  obtain ⟨top, -, rfl⟩ := List.mem_map.1 (List.mem_of_mem_head? member)
  exact closer_stops top.bracket

theorem closers_no_call (opened : List Open) : (unpadded (closers opened)).head? ≠ some '(' := by
  cases opened with
  | nil => simp [closers, unpadded]
  | cons top opened =>
      obtain ⟨bracket, start, outside⟩ := top
      cases bracket <;> simp [closers, unpadded, Bracket.closer, isGap]

theorem read_from_closers (opened : List Open) (level : Level) (latest : Expr) (offset : Nat) :
    ∃ expression,
      readFrom ⟨opened, level, .operator latest⟩ offset (closers opened) = .ok expression := by
  induction opened generalizing level latest offset with
  | nil => exact ⟨_, read_from_end⟩
  | cons top opened induction =>
      obtain ⟨bracket, start, outside⟩ := top
      obtain ⟨whole, closed⟩ := read_from_close bracket start outside
      obtain ⟨expression, ends⟩ := induction outside whole (offset + 1)
      exact ⟨expression, closed.trans ends⟩

theorem completes (state : State) (offset : Nat) :
    ∃ more expression, Stops more ∧ state.readFrom offset more = .ok expression := by
  obtain ⟨opened, level, phase⟩ := state
  have closing := closers_stop opened
  cases phase with
  | operator latest =>
      obtain ⟨expression, ends⟩ := read_from_closers opened level latest offset
      exact ⟨closers opened, expression, closing, ends⟩
  | word name span =>
      obtain ⟨expression, ends⟩ := read_from_closers opened level
        (level.signed (.identifier name span)) offset
      exact ⟨closers opened, expression, closing,
        (read_from_uncalled name span (closers_no_call opened)).trans ends⟩
  | operand =>
      have gaps : ∀ char ∈ [' '], isGap char = true := by simp [isGap]
      have zero : Spelling (.number (.ofText ['0'] [])) ['0'] := .whole ⟨by simp, by simp⟩
      have isRead : IsRead false (.number (.ofText ['0'] [])) ['0'] (closers opened) :=
        zero.is_read rfl (closing.leaves (by decide))
      obtain ⟨expression, ends⟩ := read_from_closers opened level (level.signed (.number _ _)) _
      have stopped : Stops (' ' :: '0' :: closers opened) := by
        rintro char ⟨⟩
        decide
      exact ⟨_, expression, stopped,
        (read_from_gaps gaps _ offset ('0' :: closers opened)).trans
          ((read_from_atom isRead rfl).trans ends)⟩

end State

/-- The part of a rejected text in front of its fault can be completed to a text that is accepted.
-/
theorem rejected_beginning_completed {text : String} {error : Error}
    (rejected : parse text = .error error) :
    ∃ fault before behind, error = .malformed text fault ∧ text = before ++ behind ∧
      before.utf8ByteSize = fault.span.start ∧
      ∃ more expression, parse (before ++ more) = .ok expression := by
  obtain ⟨fault, isError, reads⟩ := parse_error rejected
  obtain ⟨before, behind, tokens, state, split, -, scans, -, folds, rfl⟩ := reached_of_fault reads
  have complete : (scan false 0 before).complete = true := by rw [scans]
  obtain ⟨final, row⟩ := row_of_scan complete
  obtain ⟨more, expression, stopped, ends⟩ := state.completes (0 + before.length)
  refine ⟨_, .ofList before, .ofList behind, isError, ?_, ?_, .ofList more, expression, ?_⟩
  · rw [← String.ofList_append, ← split, String.ofList_toList]
  · rw [String.utf8ByteSize_ofList, utf8_len_of_ascii row.ascii]
    rfl
  · rw [parse_ok_iff, ← String.ofList_append, String.toList_ofList, read_chars_eq]
    have alone : scan State.initial.isBehind 0 before = ⟨tokens, before.length, true⟩ := scans
    have scanned : (scan State.initial.isBehind 0 before).complete = true := by rw [alone]
    have admitted :
        (scan State.initial.isBehind 0 before).tokens.foldlM step .initial = .ok state := by
      rw [alone]
      exact folds
    exact (read_from_front scanned admitted stopped).trans ends

/-- A call with two arguments that no comma separates can be completed behind the first of them. -/
theorem call_beginning_completed :
    parse "blur(x y)" = .error (.malformed "blur(x y)" ⟨7, .operator⟩) ∧
      ∃ before behind, "blur(x y)" = before ++ behind ∧ before.utf8ByteSize = 7 ∧
        ∃ more expression, parse (before ++ more) = .ok expression := by
  have rejected : parse "blur(x y)" = .error (.malformed "blur(x y)" ⟨7, .operator⟩) := by cbv
  obtain ⟨fault, before, behind, same, whole, place, completed⟩ :=
    rejected_beginning_completed rejected
  cases same
  exact ⟨rejected, before, behind, whole, place, completed⟩

end ImageGraph.Expr
