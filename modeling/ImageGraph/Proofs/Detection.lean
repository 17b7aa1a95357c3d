import ImageGraph.Proofs.Planning
import ImageGraph.Proofs.Routing

/-!
Detection of assignments. A line has two sides, and one is assigned to the other, exactly if it has an
equals sign and is no comment. Looking for the equals sign alone therefore finds every line that assigns,
and beside these only comments that have one.
-/

set_option autoImplicit false

namespace ImageGraph

theorem is_assignment_iff_cut {line : String} :
    isAssignment line = true ↔ Text.cut '=' line ≠ none := by
  rw [Ne, Text.uncut_iff, not_not]
  exact List.contains_iff_mem

namespace Line

/-- A line is a comment if its first character that is no blank is `#`. -/
def IsComment (line : String) : Prop :=
  (line.toList.find? fun char => !Text.isBlank char) = some '#'

instance (line : String) : Decidable (IsComment line) :=
  inferInstanceAs (Decidable (_ = _))

variable {line : String}

theorem IsComment.asks_nothing (comment : IsComment line) : ¬Asks line := by
  intro asks
  obtain ⟨first, starts, plain⟩ := asks_iff.1 asks
  exact plain (Option.some.inj (starts.symm.trans comment))

theorem asks_of_detected (detected : isAssignment line = true) (plain : ¬IsComment line) :
    Asks line := by
  cases starts : line.toList.find? fun char => !Text.isBlank char with
  | none =>
      have blank := List.find?_eq_none.1 starts '=' (List.contains_iff_mem.1 detected)
      exact absurd rfl blank
  | some first =>
      refine asks_iff.2 ⟨first, starts, ?_⟩
      rintro rfl
      exact plain starts

theorem read_of_silence (silent : ¬Asks line) : read line = .nothing := by
  rw [Asks, not_not] at silent
  simp only [read, if_pos silent]

theorem has_sides_iff_read :
    (Command.line line).sides? ≠ none ↔ ∃ left right, read line = .assignment left right := by
  rw [Command.sides?]
  cases read line <;> simp

theorem has_sides_iff_detected :
    (Command.line line).sides? ≠ none ↔ isAssignment line = true ∧ ¬IsComment line := by
  by_cases asks : Asks line
  · have plain : ¬IsComment line := fun comment => comment.asks_nothing asks
    rw [Command.sides_of_asks asks, Text.trimmedSides, Ne, Option.map_eq_none_iff, ← Ne,
      ← is_assignment_iff_cut, and_iff_left plain]
  · rw [Command.sides?, read_of_silence asks]
    constructor
    · exact fun some => absurd rfl some
    · rintro ⟨detected, plain⟩
      exact absurd (asks_of_detected detected plain) asks

end Line

namespace Session

/-- The line does what it is to assign the text behind its first equals sign to the text before it: the
result is the same, and so is the session that is left behind. -/
def AssignsSides (session : Session) (line : String) : Prop :=
  ∃ left right, Text.cut '=' line = some (left, right) ∧
    session.step (.line line) = session.step (.assign left right)

variable {session : Session} {line : String}

theorem step_of_silence (silent : ¬Line.Asks line) :
    session.step (.line line) = (.ok .nothing, session) := by
  rw [step, Action.perform, Action.execute, Line.read_of_silence silent]
  rfl

theorem assigns_of_detected (detected : isAssignment line = true) (plain : ¬Line.IsComment line) :
    session.AssignsSides line := by
  obtain ⟨⟨left, right⟩, cuts⟩ := Option.ne_none_iff_exists'.1 (is_assignment_iff_cut.1 detected)
  have sides : (Command.line line).sides? = some (Text.trim left, Text.trim right) := by
    rw [Command.sides_of_asks (Line.asks_of_detected detected plain), Text.trimmedSides, cuts]
    rfl
  have given : (Command.assign left right).sides? = some (Text.trim left, Text.trim right) := rfl
  refine ⟨left, right, cuts, ?_⟩
  rw [step_of_sides sides, step_of_sides given]

theorem detected_of_assigns (assigns : session.AssignsSides line) : isAssignment line = true := by
  obtain ⟨left, right, cuts, -⟩ := assigns
  rw [is_assignment_iff_cut, cuts]
  exact Option.some_ne_none _

theorem plain_of_assigns (assigns : session.AssignsSides line) : ¬Line.IsComment line := by
  intro comment
  obtain ⟨left, right, -, same⟩ := assigns
  rw [step_of_silence comment.asks_nothing] at same
  have succeeds : (session.step (.assign left right)).1 = .ok .nothing := by rw [← same]
  exact outcome_of_sides rfl succeeds

/-- In every session, the lines that do what assigning their sides does, and that are read as
assignments, are those in which an equals sign is detected, comments aside. -/
theorem detected_unless_comment (session : Session) (line : String) :
    (session.AssignsSides line ↔ isAssignment line = true ∧ ¬Line.IsComment line) ∧
      ((∃ left right, Line.read line = .assignment left right) ↔
        isAssignment line = true ∧ ¬Line.IsComment line) := by
  constructor
  · constructor
    · intro assigns
      exact ⟨detected_of_assigns assigns, plain_of_assigns assigns⟩
    · rintro ⟨detected, plain⟩
      exact assigns_of_detected detected plain
  · rw [← Line.has_sides_iff_read, Line.has_sides_iff_detected]

/-- An equals sign is detected in a comment as well, although a comment does nothing. -/
theorem comment_detected :
    isAssignment "# g = noise(4)" = true ∧
      (start .standard).step (.line "# g = noise(4)") = (.ok .nothing, start .standard) ∧
      ¬(start .standard).AssignsSides "# g = noise(4)" := by
  have comment : Line.IsComment "# g = noise(4)" := by decide
  exact ⟨by decide, step_of_silence comment.asks_nothing,
    fun assigns => plain_of_assigns assigns comment⟩

end Session

end ImageGraph
