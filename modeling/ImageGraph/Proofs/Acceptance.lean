import ImageGraph.Proofs.Choosing
import ImageGraph.Proofs.Written

/-!
Whole texts. The rules, run as a program, match a text if it can be read, and else fail with the
fault that reading finds. So the first alternative that matches and the longest repetition never
cost a text that the plain grammar derives.
-/

set_option autoImplicit false

namespace ImageGraph.Expr

open Token State

theorem operator_none {chars : List Char} (stopped : Stops chars) : operator? chars = none :=
  operator_append stopped []

theorem operator_none_of_head {chars : List Char} {first : Char} (begins : chars.head? = some first)
    (stop : first ∈ stops) : operator? chars = none := by
  refine operator_none fun char member => ?_
  cases begins.symm.trans member
  exact stop

theorem is_read_operator {chars behind : List Char} {operator : Operator}
    (found : operator? chars = some (.operator operator, behind)) :
    IsRead true (.operator operator) operator.symbol.toList behind := by
  obtain rfl := operator_parts found
  obtain ⟨first, rest, symbol, -⟩ := symbol_head operator
  rw [symbol] at found
  refine ⟨first, rest ++ behind, by rw [symbol]; rfl, ?_⟩
  unfold read?
  split
  · rename_i isPunctuation
    have stop : first ∈ stops := by
      unfold punctuation? at isPunctuation
      split at isPunctuation <;> cases isPunctuation <;> decide
    rw [operator_none_of_head rfl stop] at found
    cases found
  · exact found

section Expression

variable {length offset : Nat} {chars : List Char} {attempts : Attempts}

/-- Behind an operand there may be operators and more operands. At the end there is no operator. -/
abbrev LinksAgree : Nat → List Char → Attempts → Prop :=
  Onward (.spaced .anyOperator .operand) (fun _ => True) (· ∉ [')', ']', ','])
    fun stop rest after =>
      0 < stop ∧ after = Fault.attempts ⟨stop, .operator⟩ ∧ operator? rest = none

theorem refuses_link {stop : Nat} {rest : List Char} (begins : rest.head? = some '(')
    (late : stop < attempts.furthest) :
    Runs (.spaced .anyOperator .operand) stop rest attempts (.failed attempts) := by
  have refused := Piece.misses_any_operator (operator_none_of_head begins (by decide)) stop attempts
  rw [Attempts.record_before late] at refused
  exact .notFirst refused

theorem links_agree (within : AgreesWithin length) (short : chars.length ≤ length) (offset : Nat)
    (early : attempts.furthest < offset + blanks chars) : LinksAgree offset chars attempts := by
  induction size : chars.length using Nat.strong_induction_on
    generalizing chars offset attempts with
  | _ size induction =>
  subst size
  cases found : operator? (unpadded chars) with
  | none =>
      have refused := Piece.misses_any_operator found (offset + blanks chars) attempts
      rw [Attempts.record_beyond early] at refused
      refine .passed (.star_stop (.notFirst refused)) ?_ ⟨by omega, rfl, found⟩
      intro opened _ level latest
      exact ⟨level, latest, (read_from_unpadded _ offset chars).symm⟩
  | some reading =>
      obtain ⟨operator, -, rfl⟩ := Option.map_eq_some_iff.1 found
      generalize (unpadded chars).drop operator.symbol.length = behind at found
      have parts := operator_parts found
      have isRead := is_read_operator found
      obtain ⟨after, bound, matched⟩ :=
        Piece.runs_any_operator found (offset + blanks chars) attempts
      have nonempty := isRead.length_pos
      have shorter := length_unpadded chars
      have shorterBehind := length_unpadded behind
      rw [parts, List.length_append] at shorter
      generalize place :
        offset + blanks chars + operator.symbol.toList.length + blanks behind = stop
      have symbol : Ends .anyOperator (offset + blanks chars) (unpadded chars) attempts stop
          (unpadded behind) after := ⟨_, _, matched, place, rfl⟩
      obtain ⟨first, others, begins⟩ := List.exists_cons_of_length_pos nonempty
      have isFirst : (unpadded chars).head? = some first := by
        rw [parts, begins]
        rfl
      refine .of_course .operand isFirst ?_ symbol (by omega) (by omega) (by simp) ?_ ?_
        (operand_agrees within (by omega) (unpadded_solid behind) (by omega)) ?_
      · intro closes
        have closers : ∀ char ∈ [')', ']', ','], char ∈ stops := by simp [stops]
        rw [operator_none_of_head isFirst (closers first closes)] at found
        cases found
      · rintro fault place rest first before begins rfl
        exact refuses_link begins before
      · intro opened _ level latest
        refine ⟨level.extend latest operator, by simp [Level.extend, Level.mayCloseEmpty,
          Level.isBegun], rfl, ?_⟩
        rw [← read_from_unpadded, parts, read_from_operator isRead, ← read_from_unpadded, place]
      · intro middle rest last operand isClear
        have shorterRest := operand.derives.suffix.length_le
        exact induction rest.length (by omega) (by omega) middle isClear rfl

/-- An expression is tried as a whole where no operand begins. -/
theorem expression_agrees (within : AgreesWithin length) (short : chars.length ≤ length)
    (solid : Leaves isGap chars) (early : attempts.furthest ≤ offset) :
    ExpressionCourse offset chars attempts := by
  cases operand_agrees within short solid early with
  | passed begins ends goes isClear =>
      obtain ⟨middle, behind, matched, rfl, rfl⟩ := ends
      have first : Ends .operand offset chars attempts _ _ _ := ⟨_, _, matched, rfl, rfl⟩
      have shorter := matched.derives.suffix.length_le.trans short
      cases links_agree within shorter middle isClear with
      | passed ends goesOn isClear =>
          refine .passed begins (.rule (first.spaced ends.spaced_star)) ?_ isClear
          intro opened level
          obtain ⟨after, latest, passes⟩ := goes opened level
          obtain ⟨further, last, continues⟩ := goesOn opened trivial after latest
          exact ⟨further, last, by rw [passes, read_from_unpadded, continues]⟩
      | faulty ends before isFirst blocked faults =>
          have whole := first.spaced ends.spaced_star
          have le := whole.le_stop
          refine .faulty begins (by omega) (.stopped (.rule whole) before isFirst blocked) ?_
          intro opened level
          obtain ⟨after, latest, passes⟩ := goes opened level
          rw [passes, read_from_unpadded, faults opened trivial]
  | faulty begins beyond stuck faults =>
      refine .faulty begins beyond ?_ faults
      cases stuck with
      | refused runs => exact .refused (Runs.rule_beyond (.notFirst runs) beyond)
      | stopped ends before isFirst isParen =>
          subst isParen
          exact .stopped (.rule (ends.spaced_none (refuses_link isFirst before))) before isFirst
            (by decide)
  | absent none misses => exact .absent none (.rule_many (by decide) misses.both)

theorem agrees_within (length : Nat) : AgreesWithin length := by
  induction length with
  | zero => exact fun chars short => absurd short (Nat.not_lt_zero _)
  | succ length within =>
      intro chars short solid offset attempts early
      exact expression_agrees within (Nat.le_of_lt_succ short) solid early

end Expression

theorem misses_ended {chars : List Char} (more : chars ≠ []) :
    (Piece.rule .ended).Misses chars [.ended] := by
  cases chars with
  | nil => exact absurd rfl more
  | cons first rest => exact .rule fun offset attempts => .more first rest offset attempts

theorem record_ended (stop : Nat) :
    (Fault.attempts ⟨stop, .operator⟩).record stop [.ended] =
      Fault.attempts ⟨stop, .operatorOrEnd⟩ := by
  simp [Attempts.record, Fault.attempts, Expected.rules]

theorem fails_without_operand {offset : Nat} {chars : List Char}
    (misses : (Piece.rule .expression).Misses chars [.expression]) {whole : List Char}
    (gap : Runs .gap 0 whole .none (.matched offset chars .none)) :
    Runs (.rule .input) 0 whole .none (.failed (Fault.attempts ⟨offset, .expression⟩)) := by
  have refused := misses offset .none
  by_cases moved : 0 < offset
  · rw [Attempts.record_beyond moved] at refused
    exact Runs.rule_beyond (.both gap (.notFirst refused)) moved
  · obtain rfl : offset = 0 := by omega
    have failed : Runs (.rule .input) 0 whole .none _ :=
      .otherRule (.both gap (.notFirst refused))
    rw [Attempts.miss_single] at failed
    exact failed

/-- The program matches a text that is read, and else fails with the fault that reading finds. -/
theorem runs_input (chars : List Char) :
    (∃ expression stop after, readChars chars = .ok expression ∧
      Runs (.rule .input) 0 chars .none (.matched stop [] after)) ∨
    (∃ fault, readChars chars = .error fault ∧
      Runs (.rule .input) 0 chars .none (.failed fault.attempts)) := by
  have gap := runs_gap 0 chars .none
  have solid := unpadded_solid chars
  have reads : readChars chars = readFrom .initial (0 + blanks chars) (unpadded chars) :=
    (read_from_unpadded .initial 0 chars).symm
  have failed {fault : Fault} (beyond : 0 < fault.offset)
      (runs : Runs (.spaced (.rule .expression) (.rule .ended)) (0 + blanks chars)
        (unpadded chars) .none (.failed fault.attempts)) :
      Runs (.rule .input) 0 chars .none (.failed fault.attempts) :=
    Runs.rule_beyond (.both gap runs) beyond
  cases agrees_within _ (unpadded chars) (Nat.lt_succ_self _) solid (0 + blanks chars) .none
    (Nat.zero_le _) with
  | @passed stop rest after begins ends goes isClear =>
      obtain ⟨positive, rfl, none⟩ := isClear
      obtain ⟨level, latest, passes⟩ := goes [] .fresh
      cases rest with
      | nil =>
          refine .inl ⟨_, _, _, reads.trans (passes.trans read_from_end),
            .rule (.both gap (ends.spaced_runs (.rule (.ended stop _))))⟩
      | cons first rest =>
          have refused := misses_ended (List.cons_ne_nil first rest) stop
            (Fault.attempts ⟨stop, .operator⟩)
          rw [record_ended] at refused
          refine .inr ⟨⟨stop, .operatorOrEnd⟩, reads.trans (passes.trans ?_),
            failed positive (ends.spaced_runs refused)⟩
          exact read_from_no_operator ends.solid none (by simp) (fun _ => rfl) (by simp)
  | @faulty fault begins beyond stuck faults =>
      refine .inr ⟨fault, reads.trans (faults [] .fresh), failed (by omega) ?_⟩
      cases stuck with
      | refused runs => exact .notFirst runs
      | @stopped stop rest first ends before isFirst blocked =>
          have more : rest ≠ [] := by
            rintro rfl
            cases isFirst
          have refused := misses_ended more stop fault.attempts
          rw [Attempts.record_before before] at refused
          exact ends.spaced_runs refused
  | absent none misses =>
      refine .inr ⟨_, reads.trans (read_from_no_operand solid none ?_),
        fails_without_operand misses gap⟩
      simp

end ImageGraph.Expr
