import ImageGraph.Proofs.Echo

/-!
Assignments to names, written `name = expression`. The line is cut at its equals sign and both sides
lose their blanks, which changes nothing for an expression that can be read. The name then stands for
the image of the expression, and if there is no image nothing has happened.
-/

set_option autoImplicit false

namespace ImageGraph

namespace Session

variable {session : Session} {command : Command} {name text : String}

/-- What comes of giving a name to the image of an expression. -/
def named (session : Session) (name text : String) : Except Error Outcome × Session :=
  match session.compile text with
  | .ok image => (.ok (.registered name), session.register name image)
  | .error error => (.error error, session)

end Session

theorem Action.ends_assign_identifier {session : Session} {left right : String}
    (identifier : isIdentifier (Text.trim left) = true)
    (textBegun : (Text.trim right).isEmpty = false) :
    Ends session (assign left right)
      (fun outcome after =>
        (.ok outcome, after) = session.named (Text.trim left) (Text.trim right))
      (fun error after =>
        (.error error, after) = session.named (Text.trim left) (Text.trim right)) := by
  have begun : (Text.trim left).isEmpty = false := by
    simpa [String.isEmpty_iff] using (identifier_chars identifier).1
  have undotted : splitPath (Text.trim left) = .ok none := by
    rw [splitPath, Text.uncut_iff.2 (no_dot identifier)]
  have noProperty (fails : Error → Session → Prop) :
      Ends session (assignProperty (Text.trim left) (Text.trim right))
        (fun done after => done = none ∧ after = session) fails :=
    ends_lift_ok_bind undotted (ends_pure ⟨rfl, rfl⟩)
  simp only [assign, begun, textBegun, Bool.false_eq_true, if_false, Session.named]
  apply ends_bind (noProperty _)
  rintro _ _ ⟨rfl, rfl⟩
  unfold assignName
  rw [if_pos identifier]
  refine ends_get_bind (ends_lift_bind ?_ ?_)
  · intro image compiled
    rw [compiled]
    exact ends_modify_bind (ends_pure rfl)
  · intro error failed
    rw [failed]

namespace Session

variable {session : Session} {command : Command} {name text : String}

theorem step_of_named (sides : command.sides? = some (name, text))
    (identifier : isIdentifier name = true) (textBegun : text.isEmpty = false) :
    session.step command = session.named name text := by
  obtain ⟨left, right, rfl, rfl, assigns⟩ := perform_of_sides sides
  apply step_of_ends
  rw [assigns]
  exact Action.ends_assign_identifier identifier textBegun

theorem step_name_line {result : Expr} (identifier : isIdentifier name = true)
    (parsed : parse text = .ok result) :
    session.step (.line (name ++ " = " ++ text)) = session.named name text := by
  have trims := Expr.trims_of_parsed parsed
  obtain ⟨again, parsedAgain, same⟩ := trims.parsed
  have sides : (Command.line (name ++ " = " ++ text)).sides? = some (name, Text.trim text) :=
    line_sides (identifier_chars identifier).1 (identifier_solid identifier)
  have textBegun : (Text.trim text).isEmpty = false := by
    simpa [String.isEmpty_iff] using trims.begun
  rw [step_of_named sides identifier textBegun, named, named, Session.compile, Session.compile,
    compile_trimmed parsed parsedAgain same]

theorem named_ok {image : Image} (compiled : session.compile text = .ok image) :
    session.named name text = (.ok (.registered name), session.register name image) := by
  rw [named, compiled]

theorem named_error {error : Error} (failed : session.compile text = .error error) :
    session.named name text = (.error error, session) := by
  rw [named, failed]

theorem named_succeeds_iff :
    (∃ outcome, (session.named name text).1 = .ok outcome) ↔
      ∃ image, session.compile text = .ok image := by
  cases compiled : session.compile text with
  | ok image => simp [named_ok compiled]
  | error error => simp [named_error compiled]

end Session

end ImageGraph
