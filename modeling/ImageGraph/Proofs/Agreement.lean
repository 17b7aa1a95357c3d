import ImageGraph.Proofs.Derivation
import ImageGraph.Proofs.Matching

/-!
The rules, run as a program, agree with the reader. Where the reader goes on behind an operand, a
list or an expression, so does the program. Where the reader finds a fault, the program either fails
or stops in front of something that cannot follow, such as the parenthesis of a call that has been
given up; in both cases what it has tried in vain furthest on is what the reader expects there.
-/

set_option autoImplicit false

namespace ImageGraph.Expr

open Token

/-- The rules that are tried in vain where something is expected. -/
def Expected.rules : Expected → List Rule
  | expression => [.expression]
  | operand => [.minus, .word, .array, .width, .label, .number, .word]
  | operator => Operator.all.map .symbol
  | operatorOrEnd => Operator.all.map .symbol ++ [.ended]

/-- What the program has tried in vain where there is a fault. -/
def Fault.attempts (fault : Fault) : Attempts := ⟨fault.offset, fault.expected.rules⟩

theorem Fault.terms_attempts (fault : Fault) : fault.attempts.terms = fault.expected.terms := by
  obtain ⟨offset, expected⟩ := fault
  cases expected <;> rfl

namespace State

/-- Reading goes on behind an operand. -/
def Goes (offset : Nat) (chars : List Char) (stop : Nat) (rest : List Char) : Prop :=
  ∀ opened level, ∃ after latest,
    readFrom ⟨opened, level, .operand⟩ offset chars =
      readFrom ⟨opened, after, .operator latest⟩ stop rest

/-- Reading finds a fault in an operand. -/
def Faults (offset : Nat) (chars : List Char) (fault : Fault) : Prop :=
  ∀ opened level, readFrom ⟨opened, level, .operand⟩ offset chars = .error fault

end State

open State

/-- A piece does not match, or it stops in front of a character of some kind. What has been tried in
vain is what a fault says. -/
inductive Stuck (piece : Piece) (blocks : Char → Prop) (offset : Nat) (chars : List Char)
    (attempts : Attempts) (fault : Fault) : Prop where
  | refused (runs : Runs piece offset chars attempts (.failed fault.attempts))
  | stopped {stop : Nat} {rest : List Char} {first : Char}
      (ends : Ends piece offset chars attempts stop rest fault.attempts)
      (before : stop < fault.offset) (begins : rest.head? = some first) (blocked : blocks first)

/-- How a piece that begins with an operand agrees with reading. -/
inductive Course (piece : Piece) (missed : List Rule) (blocks : Char → Prop)
    (clear : Nat → List Char → Attempts → Prop) (offset : Nat) (chars : List Char)
    (attempts : Attempts) : Prop where
  | passed {stop : Nat} {rest : List Char} {after : Attempts} (begins : beginsOperand chars = true)
      (ends : Ends piece offset chars attempts stop rest after) (goes : Goes offset chars stop rest)
      (isClear : clear stop rest after)
  | faulty {fault : Fault} (begins : beginsOperand chars = true) (beyond : offset < fault.offset)
      (stuck : Stuck piece blocks offset chars attempts fault) (faults : Faults offset chars fault)
  | absent (none : beginsOperand chars = false) (misses : piece.Misses chars missed)

/-- Behind an operand, nothing has been tried in vain yet. If it is the name of a call that has been
given up, the parenthesis is still there. -/
abbrev OperandCourse (piece : Piece) (missed : List Rule) : Nat → List Char → Attempts → Prop :=
  Course piece missed (· = '(') fun stop _ after => after.furthest < stop

/-- Behind an expression, all operators have been tried in vain. If it is only a part of what has
been given up, there is an operator or a parenthesis. -/
abbrev ExpressionCourse : Nat → List Char → Attempts → Prop :=
  Course (.rule .expression) [.expression] (· ∉ [')', ']', ',']) fun stop rest after =>
    0 < stop ∧ after = Fault.attempts ⟨stop, .operator⟩ ∧ operator? rest = none

/-- Whole expressions up to some length agree with reading. -/
def AgreesWithin (length : Nat) : Prop :=
  ∀ chars, chars.length < length → Leaves isGap chars → ∀ offset attempts,
    attempts.furthest ≤ offset → ExpressionCourse offset chars attempts

/-- How the rest of something in brackets agrees with reading. -/
inductive Enclosed (piece : Piece) (bracket : Bracket) (offset : Nat) (chars : List Char)
    (attempts : Attempts) : Prop where
  | closed {stop : Nat} {rest : List Char} {after : Attempts}
      (runs : Runs piece offset chars attempts (.matched stop rest after))
      (early : after.furthest < stop)
      (reads : ∀ opened outside start, ∃ whole,
        readFrom ⟨⟨bracket, start, outside⟩ :: opened, .fresh, .operand⟩ offset chars =
          readFrom ⟨opened, outside, .operator whole⟩ stop rest)
  | faulty {fault : Fault} (runs : Runs piece offset chars attempts (.failed fault.attempts))
      (beyond : offset ≤ fault.offset)
      (reads : ∀ opened outside start,
        readFrom ⟨⟨bracket, start, outside⟩ :: opened, .fresh, .operand⟩ offset chars =
          .error fault)

/-- How a repetition behind an operand or an item agrees with reading. -/
inductive Onward (piece : Piece) (suits : List Open → Prop) (blocks : Char → Prop)
    (clear : Nat → List Char → Attempts → Prop) (offset : Nat) (chars : List Char)
    (attempts : Attempts) : Prop where
  | passed {stop : Nat} {rest : List Char} {after : Attempts}
      (ends : Ends (.star (.both .gap piece)) offset chars attempts stop rest after)
      (goes : ∀ opened, suits opened → ∀ level latest, ∃ further last,
        readFrom ⟨opened, level, .operator latest⟩ offset chars =
          readFrom ⟨opened, further, .operator last⟩ stop rest)
      (isClear : clear stop rest after)
  | faulty {fault : Fault} {stop : Nat} {rest : List Char} {first : Char}
      (ends : Ends (.star (.both .gap piece)) offset chars attempts stop rest fault.attempts)
      (before : stop < fault.offset) (begins : rest.head? = some first) (blocked : blocks first)
      (faults : ∀ opened, suits opened → ∀ level latest,
        readFrom ⟨opened, level, .operator latest⟩ offset chars = .error fault)

namespace Piece

variable {chars behind : List Char}

theorem takes_closer (bracket : Bracket) :
    (text [bracket.closer]).Takes [bracket.closer] behind := by
  cases bracket <;> exact takes_text rfl

theorem avoids_char {char : Char} (other : chars.head? ≠ some char) :
    (text [char]).Avoids chars := by
  refine avoids_text ?_
  rintro ⟨rest, rfl⟩
  exact other rfl

end Piece

variable {length offset : Nat} {chars : List Char} {attempts : Attempts} {bracket : Bracket}

theorem Enclosed.of_stop {piece : Piece} {fault : Fault} {stop : Nat} {rest : List Char}
    (ends : Ends piece offset chars attempts stop rest fault.attempts)
    (beyond : offset ≤ fault.offset) (unclosed : rest.head? ≠ some bracket.closer)
    (reads : ∀ opened outside start,
      readFrom ⟨⟨bracket, start, outside⟩ :: opened, .fresh, .operand⟩ offset chars =
        .error fault) :
    Enclosed (.spaced piece (.text [bracket.closer])) bracket offset chars attempts :=
  .faulty (ends.spaced_runs (Piece.avoids_char unclosed stop _)) beyond reads

theorem close_agrees {stop : Nat} {rest : List Char} {piece : Piece}
    (ends : Ends piece offset chars attempts stop rest (Fault.attempts ⟨stop, .operator⟩))
    (none : operator? rest = none)
    (unlisted : rest.head? = some ',' → bracket = .group)
    (goes : ∀ opened outside start, ∃ after latest,
      readFrom ⟨⟨bracket, start, outside⟩ :: opened, .fresh, .operand⟩ offset chars =
        readFrom ⟨⟨bracket, start, outside⟩ :: opened, after, .operator latest⟩ stop rest) :
    Enclosed (.spaced piece (.text [bracket.closer])) bracket offset chars attempts := by
  by_cases closes : rest.head? = some bracket.closer
  · obtain ⟨more, rfl⟩ := List.head?_eq_some_iff.1 closes
    refine .closed (ends.spaced_runs (Piece.takes_closer bracket stop _)) (Nat.lt_succ_self stop) ?_
    intro opened outside start
    obtain ⟨after, latest, reads⟩ := goes opened outside start
    obtain ⟨whole, closed⟩ := read_from_close bracket start outside
    exact ⟨whole, reads.trans closed⟩
  · refine .of_stop ends ends.le_stop closes ?_
    intro opened outside start
    obtain ⟨after, latest, reads⟩ := goes opened outside start
    refine reads.trans (read_from_no_operator ends.solid none (by simp) ?_ ?_)
    · intro comma
      rw [unlisted comma]
      rfl
    · rintro top others ⟨⟩
      exact closes

theorem refused_expression (misses : (Piece.rule .expression).Misses chars [.expression])
    (early : attempts.furthest < offset) :
    Runs (.rule .expression) offset chars attempts
      (.failed (Fault.attempts ⟨offset, .expression⟩)) := by
  have refused := misses offset attempts
  rwa [Attempts.record_beyond early] at refused

theorem group_agrees (within : AgreesWithin length) (short : chars.length < length)
    (solid : Leaves isGap chars) (early : attempts.furthest < offset) :
    Enclosed (.spaced (.rule .expression) (.text [')'])) .group offset chars attempts := by
  cases within chars short solid offset attempts (Nat.le_of_lt early) with
  | passed begins ends goes isClear =>
      obtain ⟨-, rfl, none⟩ := isClear
      exact close_agrees ends none (fun _ => rfl) fun opened outside start => goes _ _
  | faulty begins beyond stuck faults =>
      refine .faulty ?_ (Nat.le_of_lt beyond) fun _ _ _ => faults _ _
      cases stuck with
      | refused runs => exact .notFirst runs
      | stopped ends before begins blocked =>
          refine ends.spaced_runs (Piece.avoids_char ?_ _ _)
          rw [begins]
          rintro ⟨⟩
          simp at blocked
  | absent none misses =>
      refine .faulty (.notFirst (refused_expression misses early)) (Nat.le_refl offset) ?_
      intro opened outside start
      refine read_from_no_operand solid none ?_
      rintro - top others ⟨⟩ notGroup
      exact absurd rfl notGroup

theorem Stuck.spaced {first second : Piece} {blocks : Char → Prop} {stop : Nat} {rest : List Char}
    {after : Attempts} {fault : Fault} (ends : Ends first offset chars attempts stop rest after)
    (stuck : Stuck second blocks stop rest after fault) :
    Stuck (.spaced first second) blocks offset chars attempts fault := by
  cases stuck with
  | refused runs => exact .refused (ends.spaced_runs runs)
  | stopped more before begins blocked => exact .stopped (ends.spaced more) before begins blocked

namespace Onward

variable {piece : Piece} {suits : List Open → Prop} {blocks : Char → Prop}
  {clear : Nat → List Char → Attempts → Prop} {fault : Fault}

theorem further {middle : Nat} {behind : List Char} {between : Attempts}
    (once : Runs piece (offset + blanks chars) (unpadded chars) attempts
      (.matched middle behind between))
    (goes : ∀ opened, suits opened → ∀ level latest, ∃ further last,
      readFrom ⟨opened, level, .operator latest⟩ offset chars =
        readFrom ⟨opened, further, .operator last⟩ middle behind)
    (onward : Onward piece suits blocks clear middle behind between) :
    Onward piece suits blocks clear offset chars attempts := by
  cases onward with
  | passed ends goesOn isClear =>
      refine .passed (.star_further once ends) ?_ isClear
      intro opened suited level latest
      obtain ⟨further, last, first⟩ := goes opened suited level latest
      obtain ⟨final, value, others⟩ := goesOn opened suited further last
      exact ⟨final, value, first.trans others⟩
  | faulty ends before begins blocked faults =>
      refine .faulty (.star_further once ends) before begins blocked ?_
      intro opened suited level latest
      obtain ⟨further, last, first⟩ := goes opened suited level latest
      exact first.trans (faults opened suited further last)

theorem of_stuck {inner : Char → Prop} {first : Char}
    (begins : (unpadded chars).head? = some first) (blocked : blocks first)
    (stuck : Stuck piece inner (offset + blanks chars) (unpadded chars) attempts fault)
    (beyond : offset + blanks chars < fault.offset) (wider : ∀ char, inner char → blocks char)
    (refuses : ∀ stop rest first, stop < fault.offset → rest.head? = some first → inner first →
      Runs piece stop rest fault.attempts (.failed fault.attempts))
    (faults : ∀ opened, suits opened → ∀ level latest,
      readFrom ⟨opened, level, .operator latest⟩ offset chars = .error fault) :
    Onward piece suits blocks clear offset chars attempts := by
  cases stuck with
  | refused runs => exact .faulty (.star_stop runs) beyond begins blocked faults
  | stopped ends before beginsBehind blockedBehind =>
      obtain ⟨middle, behind, matched, rfl, rfl⟩ := ends
      have stops := Ends.star_stop (refuses _ _ _ before beginsBehind blockedBehind)
      exact .faulty (.star_further matched stops) before beginsBehind (wider _ blockedBehind) faults

/-- A repetition goes on with a separator and an item, or ends where no item can be read behind a
separator. -/
theorem of_course (expected : Expected) {separator item : Piece} {inner : Char → Prop}
    {clearItem : Nat → List Char → Attempts → Prop} {stop : Nat} {behind : List Char}
    {after : Attempts} {first : Char}
    (begins : (unpadded chars).head? = some first) (blocked : blocks first)
    (separates : Ends separator (offset + blanks chars) (unpadded chars) attempts stop behind after)
    (beyond : offset + blanks chars < stop) (early : after.furthest < stop)
    (wider : ∀ char, inner char → blocks char)
    (refuses : ∀ (fault : Fault) stop rest first, stop < fault.offset → rest.head? = some first →
      inner first → Runs (.spaced separator item) stop rest fault.attempts (.failed fault.attempts))
    (reads : ∀ opened, suits opened → ∀ level latest, ∃ next : Level,
      next.mayCloseEmpty = false ∧ (if next.isBegun then .operand else .expression) = expected ∧
        readFrom ⟨opened, level, .operator latest⟩ offset chars =
          readFrom ⟨opened, next, .operand⟩ stop behind)
    (course : Course item expected.rules inner clearItem stop behind after)
    (onward : ∀ middle rest last, Runs item stop behind after (.matched middle rest last) →
      clearItem (middle + blanks rest) (unpadded rest) last →
        Onward (.spaced separator item) suits blocks clear middle rest last) :
    Onward (.spaced separator item) suits blocks clear offset chars attempts := by
  have stopped (fault : Fault) (stuck : Stuck item inner stop behind after fault)
      (late : stop ≤ fault.offset)
      (faults : ∀ opened, suits opened → ∀ level latest,
        readFrom ⟨opened, level, .operator latest⟩ offset chars = .error fault) :
      Onward (.spaced separator item) suits blocks clear offset chars attempts :=
    .of_stuck begins blocked (stuck.spaced separates) (by omega) wider (refuses fault) faults
  cases course with
  | passed starts ends goes isClear =>
      obtain ⟨middle, rest, matched, rfl, rfl⟩ := ends
      refine .further (separates.spaced_runs matched) ?_ (onward middle rest _ matched isClear)
      intro opened suited level latest
      obtain ⟨next, -, -, same⟩ := reads opened suited level latest
      obtain ⟨further, last, passes⟩ := goes opened next
      exact ⟨further, last, by rw [same, passes, read_from_unpadded]⟩
  | faulty starts late stuck faults =>
      refine stopped _ stuck (Nat.le_of_lt late) ?_
      intro opened suited level latest
      obtain ⟨next, -, -, same⟩ := reads opened suited level latest
      exact same.trans (faults opened next)
  | absent none misses =>
      have refused := misses stop after
      rw [Attempts.record_beyond early] at refused
      refine stopped ⟨stop, expected⟩ (.refused refused) (Nat.le_refl stop) ?_
      intro opened suited level latest
      obtain ⟨next, unclosed, awaited, same⟩ := reads opened suited level latest
      rw [same, ← awaited]
      refine read_from_no_operand separates.solid none ?_
      intro mayClose
      cases unclosed.symm.trans mayClose

end Onward

def Piece.item : Piece := .spaced (.text [',']) (.rule .expression)

/-- Behind an expression in a list there may be more of them. At its end there is no comma. -/
abbrev ItemsAgree : Nat → List Char → Attempts → Prop :=
  Onward .item (mayList · = true) (· ∉ [')', ']']) fun stop rest after =>
    after = Fault.attempts ⟨stop, .operator⟩ ∧ operator? rest = none ∧ rest.head? ≠ some ','

theorem avoids_item {chars : List Char} (noComma : chars.head? ≠ some ',') :
    Piece.item.Avoids chars := .both (Piece.avoids_char noComma)

theorem refuses_item {stop : Nat} {rest : List Char} {first : Char}
    (begins : rest.head? = some first) (blocked : first ∉ [')', ']', ',']) (attempts : Attempts) :
    Runs .item stop rest attempts (.failed attempts) := by
  refine avoids_item ?_ stop attempts
  rw [begins]
  rintro ⟨⟩
  simp at blocked

theorem length_unpadded (chars : List Char) : (unpadded chars).length ≤ chars.length :=
  (List.dropWhile_suffix isGap).length_le

theorem items_agree (within : AgreesWithin length) (short : chars.length ≤ length) (offset : Nat)
    (none : operator? (unpadded chars) = none) :
    ItemsAgree offset chars (Fault.attempts ⟨offset + blanks chars, .operator⟩) := by
  induction size : chars.length using Nat.strong_induction_on generalizing chars offset with
  | _ size induction =>
  subst size
  by_cases comma : (unpadded chars).head? = some ','
  · obtain ⟨more, begins⟩ := List.head?_eq_some_iff.1 comma
    have shorter := length_unpadded chars
    have shorterMore := length_unpadded more
    rw [begins, List.length_cons] at shorter
    generalize known : Fault.attempts ⟨offset + blanks chars, .operator⟩ = attempts
    have early : attempts.furthest < offset + blanks chars + 1 + blanks more := by
      rw [← known]
      change offset + blanks chars < _
      omega
    have separates : Ends (.text [',']) (offset + blanks chars) (unpadded chars) attempts
        (offset + blanks chars + 1 + blanks more) (unpadded more) attempts := by
      rw [begins]
      exact .of_takes (Piece.takes_text rfl) _ _
    refine .of_course .expression comma (by decide) separates (by omega) early ?_ ?_ ?_
      (within _ (by omega) (unpadded_solid more) _ _ (Nat.le_of_lt early)) ?_
    · exact fun char other closes => other (by simp_all)
    · exact fun fault _ _ _ _ isFirst blocked => refuses_item isFirst blocked fault.attempts
    · intro opened lists level latest
      refine ⟨level.nextItem latest, by simp [Level.nextItem, Level.mayCloseEmpty], rfl, ?_⟩
      rw [← read_from_unpadded, begins, read_from_comma lists, read_from_unpadded]
    · rintro middle rest _ matched ⟨-, rfl, noOperator⟩
      have shorterRest := matched.derives.suffix.length_le
      exact induction rest.length (by omega) (by omega) middle noOperator rfl
  · refine .passed (.star_stop (avoids_item comma _ _)) ?_ ⟨rfl, none, comma⟩
    intro opened lists level latest
    exact ⟨level, latest, (read_from_unpadded _ offset chars).symm⟩

theorem closer_begins_nothing (begins : beginsOperand chars = true) (bracket : Bracket) :
    chars.head? ≠ some bracket.closer := by
  intro closes
  obtain ⟨more, rfl⟩ := List.head?_eq_some_iff.1 closes
  cases bracket <;> cases begins

theorem unclosed_of_head {rest : List Char} {first : Char} (other : first ∉ [')', ']'])
    (begins : rest.head? = some first) : rest.head? ≠ some bracket.closer := by
  rw [begins]
  rintro ⟨⟩
  cases bracket <;> exact other (by simp [Bracket.closer])

/-- Behind the first item of a list there may be others. -/
theorem items_enclosed (within : AgreesWithin length) (notGroup : bracket ≠ .group)
    (short : chars.length < length) {stop : Nat} {rest : List Char}
    (ends : Ends (.rule .expression) offset chars attempts stop rest
      (Fault.attempts ⟨stop, .operator⟩))
    (goes : Goes offset chars stop rest) (none : operator? rest = none) :
    Enclosed (.spaced (.maybe .list) (.text [bracket.closer])) bracket offset chars attempts := by
  have lists := fun start outside opened => may_list notGroup start outside opened
  have first := ends
  obtain ⟨middle, behind, matched, rfl, rfl⟩ := ends
  have shorter := matched.derives.suffix.length_le.trans (Nat.le_of_lt short)
  cases items_agree within shorter middle none with
  | passed ends goesOn isClear =>
      obtain ⟨rfl, noOperator, noComma⟩ := isClear
      refine close_agrees (.some (first.spaced ends.spaced_star)) noOperator
        (fun comma => absurd comma noComma) ?_
      intro opened outside start
      obtain ⟨after, latest, passes⟩ := goes (⟨bracket, start, outside⟩ :: opened) .fresh
      obtain ⟨further, last, continues⟩ := goesOn _ (lists start outside opened) after latest
      exact ⟨further, last, by rw [passes, read_from_unpadded, continues]⟩
  | faulty ends before begins blocked faults =>
      have list := Ends.some (first.spaced ends.spaced_star)
      have le := list.le_stop
      refine .of_stop list (by omega) (unclosed_of_head blocked begins) ?_
      intro opened outside start
      obtain ⟨after, latest, passes⟩ := goes (⟨bracket, start, outside⟩ :: opened) .fresh
      rw [passes, read_from_unpadded, faults _ (lists start outside opened)]

theorem list_agrees (within : AgreesWithin length) (notGroup : bracket ≠ .group)
    (short : chars.length < length) (solid : Leaves isGap chars)
    (early : attempts.furthest < offset) :
    Enclosed (.spaced (.maybe .list) (.text [bracket.closer])) bracket offset chars attempts := by
  cases within chars short solid offset attempts (Nat.le_of_lt early) with
  | passed begins ends goes isClear =>
      obtain ⟨-, rfl, noOperator⟩ := isClear
      exact items_enclosed within notGroup short ends goes noOperator
  | faulty starts beyond stuck faults =>
      have reads := fun opened outside start => faults (⟨bracket, start, outside⟩ :: opened) .fresh
      cases stuck with
      | refused runs =>
          exact .of_stop (.none solid (.notFirst runs)) (Nat.le_of_lt beyond)
            (closer_begins_nothing starts bracket) reads
      | stopped ends before begins blocked =>
          have list := Ends.some (ends.spaced_none (refuses_item begins blocked _))
          exact .of_stop list (Nat.le_of_lt beyond)
            (unclosed_of_head (fun closes => blocked (List.mem_append_left [','] closes)) begins)
            reads
  | absent noOperand misses =>
      have empty : Ends (.maybe .list) offset chars attempts offset chars
          (Fault.attempts ⟨offset, .expression⟩) :=
        .none solid (.notFirst (refused_expression misses early))
      by_cases closes : chars.head? = some bracket.closer
      · obtain ⟨more, rfl⟩ := List.head?_eq_some_iff.1 closes
        refine .closed (empty.spaced_runs (Piece.takes_closer bracket offset _))
          (Nat.lt_succ_self offset) ?_
        intro opened outside start
        exact read_from_close_empty notGroup start outside
      · refine .of_stop empty (Nat.le_refl offset) closes ?_
        intro opened outside start
        refine read_from_no_operand solid noOperand ?_
        rintro - top others ⟨⟩ -
        exact closes

end ImageGraph.Expr
