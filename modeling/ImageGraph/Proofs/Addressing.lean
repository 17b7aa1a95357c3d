import ImageGraph.Proofs.Echo
import ImageGraph.Proofs.Planning

/-!
Addressing an image. A line that ends in a dot lists the properties of the image whose name stands before
it, and a path with a dot stands for a property of that image. Blanks around the name and around the
property are of no account. What an assignment to such a path does is told by the image alone.
-/

set_option autoImplicit false

namespace ImageGraph

namespace Session

/-- What comes of assigning a text to a property of an image that has a name. -/
def assigned (session : Session) (image : Image) (name property text : String) :
    Except Error Outcome × Session :=
  match Settings.property? image.kind.properties property with
  | none => (.error (.propertyNotFound name property image.propertyNames), session)
  | some declared =>
      match readRequest declared text with
      | .error error => (.error error, session)
      | .ok (.cases entries) => (.ok (.listing entries), session)
      | .ok (.store value) =>
          (.ok (.propertySet name property), session.replaceSettings image
            (Settings.put image.kind.properties (image.settings session.store) property value))

variable {session : Session} {name : String} {image : Image}

section Assigned

variable {property text : String} {declared : Property}

theorem assigned_unknown (unknown : Settings.property? image.kind.properties property = none) :
    session.assigned image name property text =
      (.error (.propertyNotFound name property image.propertyNames), session) := by
  rw [assigned, unknown]

theorem assigned_known (known : Settings.property? image.kind.properties property = some declared) :
    session.assigned image name property text =
      match readRequest declared text with
      | .error error => (.error error, session)
      | .ok (.cases entries) => (.ok (.listing entries), session)
      | .ok (.store value) =>
          (.ok (.propertySet name property), session.replaceSettings image
            (Settings.put image.kind.properties (image.settings session.store) property value)) := by
  rw [assigned, known]

end Assigned

theorem carry_plan_property (bound : session.names.get? name = some image) (property text : String) :
    session.carry (planProperty session.names name property text) =
      session.assigned image name property text := by
  have found : session.names.find name = .ok image := by
    simp only [Registry.find, bound]
  rw [planProperty, found]
  cases declares : Settings.property? image.kind.properties property with
  | none =>
      simp only [bind, Except.bind, declares, assigned_unknown declares]
      rfl
  | some declared =>
      simp only [bind, Except.bind, declares, assigned_known declares]
      cases readRequest declared text with
      | error error => rfl
      | ok request => cases request <;> rfl

theorem step_of_path {command : Command} {before property text : String}
    (sides : command.sides? = some (before ++ "." ++ property, text))
    (named : isIdentifier (Text.trim before) = true) (undotted : '.' ∉ property.toList)
    (begun : text ≠ "") (bound : session.names.get? (Text.trim before) = some image) :
    session.step command =
      session.assigned image (Text.trim before) (Text.trim property) text := by
  have pathBegun : (before ++ "." ++ property).isEmpty = false := by
    simp
  have textBegun : text.isEmpty = false := by
    simpa [String.isEmpty_iff] using begun
  rw [step_of_sides sides, plan, pathBegun, textBegun, if_neg Bool.false_ne_true,
    if_neg Bool.false_ne_true, plan_path_dotted (path_split named undotted),
    carry_plan_property bound]

/-- A line that is a name and a dot lists the properties of the image that the name stands for. -/
theorem step_of_dot {line before : String} (trimmed : Text.trim line = before ++ ".")
    (named : isIdentifier (Text.trim before) = true)
    (bound : session.names.get? (Text.trim before) = some image) :
    session.step (.line line) = (.ok (.listing (image.propertyNames.map Text.dotted)), session) := by
  have chars : (Text.trim line).toList = before.toList ++ ['.'] := by
    rw [trimmed, String.toList_append]
    rfl
  have absent {char : Char} (notBlank : Text.isBlank char = false) (notDot : char ≠ '.')
      (notSolid : Expr.isSolid char = false) : char ∉ (Text.trim line).toList := by
    have apart : char ∉ (Text.trim before).toList := by
      intro member
      rw [identifier_solid named char member] at notSolid
      cases notSolid
    rw [chars, List.mem_append, List.mem_singleton, not_or]
    exact ⟨Text.absent_of_trim notBlank apart, notDot⟩
  have asks : Line.Asks line := by
    obtain ⟨first, rest, starts⟩ := List.exists_cons_of_ne_nil
      (List.append_ne_nil_of_right_ne_nil before.toList (List.cons_ne_nil '.' []))
    apply Line.asks_of_chars (chars.trans starts)
    rintro rfl
    exact absent rfl (by decide) rfl (chars.trans starts ▸ List.mem_cons_self)
  have uncut : Text.cut '=' (Text.trim line) = none :=
    Text.uncut_iff.2 (absent rfl (by decide) rfl)
  have dot : Text.dropFinal '.' (Text.trim line) = some before := by
    rw [Text.dropFinal, chars, List.reverse_append]
    simp
  have found : session.names.find (Text.trim before) = .ok image := by
    simp only [Registry.find, bound]
  rw [step_listing (Line.read_listing asks uncut dot), listProperties, found]
  rfl

end Session

end ImageGraph
