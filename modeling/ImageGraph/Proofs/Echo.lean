import ImageGraph.Proofs.ReadBack
import ImageGraph.Proofs.Routing
import ImageGraph.Proofs.Wiring
import ImageGraph.Transcript

/-!
Echoes. What is answered to an assignment of a value is an assignment again. When it is fed back, the
value that is read is the one that the property has, so nothing changes and the answer is the same.
-/

set_option autoImplicit false

namespace ImageGraph

open ImageGraph.Expr (isSolid)

theorem Kind.properties_named (kind : Kind) : ∀ property ∈ kind.properties,
    isIdentifier property.name = true ∧
      ∀ name ∈ property.kind.cases, isIdentifier name = true := by
  rcases kind with source | effect | combination | arrangement
  · cases source <;> decide +kernel
  · cases effect <;> decide +kernel
  · cases combination <;> decide +kernel
  · cases arrangement <;> decide +kernel

def Property.Value.echo (value : Property.Value) (name property : String) : String :=
  name ++ "." ++ property ++ " = " ++ value.text

section Echo

variable {name property : String} {value : Property.Value}

theorem no_dot (identifier : isIdentifier name = true) : '.' ∉ name.toList := by
  intro member
  have word := (identifier_chars identifier).2 '.' member
  exact absurd word (by decide)

theorem path_solid (named : isIdentifier name = true) (declared : isIdentifier property = true) :
    ∀ char ∈ (name ++ "." ++ property).toList, isSolid char = true := by
  simp only [String.toList_append, List.mem_append]
  rintro char ((before | dot) | behind)
  · exact identifier_solid named char before
  · obtain rfl := List.mem_singleton.1 dot
    decide
  · exact identifier_solid declared char behind

theorem path_split {before property : String} (named : isIdentifier (Text.trim before) = true)
    (undotted : '.' ∉ property.toList) :
    splitPath (before ++ "." ++ property) =
      .ok (some (Text.trim before, Text.trim property)) := by
  have parts : (before ++ "." ++ property).toList = before.toList ++ '.' :: property.toList := by simp
  have cuts := Text.cut_first parts (Text.absent_of_trim rfl (no_dot named))
  rw [String.ofList_toList, String.ofList_toList] at cuts
  have single : (Text.trim property).toList.contains '.' = false := by
    simpa using fun member => undotted (Text.mem_of_trim member)
  have begun : (Text.trim before).isEmpty = false := by
    simpa [String.isEmpty_iff] using (identifier_chars named).1
  simp only [splitPath, cuts, single, begun, Bool.false_eq_true, if_false]

theorem path_read (named : isIdentifier name = true) (declared : isIdentifier property = true) :
    splitPath (name ++ "." ++ property) = .ok (some (name, property)) := by
  have nameSnug := solid_snug (identifier_chars named).1 (identifier_solid named)
  have propertySnug := solid_snug (identifier_chars declared).1 (identifier_solid declared)
  have split := path_split (nameSnug.trim.symm ▸ named) (no_dot declared)
  rwa [nameSnug.trim, propertySnug.trim] at split

theorem echo_sides (named : isIdentifier name = true) (declared : isIdentifier property = true)
    (text : Text.Snug value.text.toList) :
    (Command.line (value.echo name property)).sides? =
      some (name ++ "." ++ property, value.text) := by
  have begun : (name ++ "." ++ property).toList ≠ [] := by simp
  rw [Property.Value.echo, line_sides begun (path_solid named declared), text.trim]

end Echo

namespace Session

variable {session : Session} {name property : String} {image : Image} {value : Property.Value}

theorem replace_settings_present (session : Session) (image : Image) :
    session.replaceSettings image (image.settings session.store) = session := by
  cases home : image.home with
  | loose settings => simp only [replaceSettings, Image.address?, home]
  | stored address =>
      rw [session.replace_settings_stored _ home]
      have same : session.store.set! address (image.settings session.store) = session.store := by
        rw [Array.set!_eq_setIfInBounds]
        apply Array.ext (by simp)
        intro index _ bound
        rw [Array.getElem_setIfInBounds]
        split
        · rename_i here
          simp [Image.settings, home, here, Array.getD_eq_getD_getElem?, bound]
        · rfl
      rw [same]

theorem step_echo {declared : Property} (named : isIdentifier name = true)
    (bound : session.names.get? name = some image)
    (found : Settings.property? image.kind.properties property = some declared)
    (fits : value.fits declared.kind = true) (finite : value.IsFinite) (attained : value.Attained) :
    session.step (.line (value.echo name property)) =
      (.ok (.propertySet name property), session.replaceSettings image
        (Settings.put image.kind.properties (image.settings session.store) property value)) := by
  obtain ⟨isProperty, rfl⟩ := Settings.declared_of_property found
  obtain ⟨propertyNamed, casesNamed⟩ := image.kind.properties_named declared isProperty
  have text := text_snug fits casesNamed finite
  have stores : session.Stores (name ++ "." ++ declared.name) value.text name declared.name image
      declared value :=
    ⟨path_read named propertyNamed, bound, found, request_read fits casesNamed finite attained, fits⟩
  have pathBegun : (name ++ "." ++ declared.name).isEmpty = false := by
    simp
  have textBegun : value.text.isEmpty = false := by
    simpa [String.isEmpty_iff] using text.begun
  exact step_of_stores (echo_sides named propertyNamed text) pathBegun textBegun stores

theorem Recorded.echo_step {catalog : Catalog} (recorded : session.Recorded catalog)
    (bound : session.names.get? name = some image)
    (holds : image.value? session.store property = some value) (finite : value.IsFinite) :
    session.step (.line (value.echo name property)) =
      (.ok (.propertySet name property), session) := by
  have wellMade := recorded.well_made bound
  obtain ⟨declared, found, fits⟩ := Settings.declared_of_fit wellMade.fit holds
  have named := recorded.identifiers name image bound
  have attained := wellMade.attained value (Settings.mem_of_get holds)
  rw [step_echo named bound found fits finite attained, Settings.put_present holds,
    replace_settings_present]

/-- In every session that a run leads to, a finite value can be assigned to its property once more by
the line that shows it. That changes nothing, and the line is the answer. -/
theorem echo_changes_nothing (defaults : Defaults) (commands : List Command)
    (bound : ((start defaults).run commands).names.get? name = some image)
    (holds : image.value? ((start defaults).run commands).store property = some value)
    (finite : value.IsFinite) :
    ((start defaults).run commands).step (.line (value.echo name property)) =
        (.ok (.propertySet name property), (start defaults).run commands) ∧
      ((start defaults).run commands).transcript [value.echo name property] =
        (value.echo name property ++ "\n", (start defaults).run commands) := by
  obtain ⟨catalog, recorded, _⟩ := run_recorded defaults [] commands
  rw [List.nil_append] at recorded
  have stepped := recorded.echo_step bound holds finite
  refine ⟨stepped, ?_⟩
  simp only [transcript, stepped, answer, Outcome.text, bound, Option.bind_some, holds,
    String.append_empty]
  rfl

/-- A zero keeps its sign, and a number that has no short text keeps all its bits. -/
theorem shifted_echo_changes_nothing :
    let session := (start .standard).run [.line "x = noise(64)", .line "x.offset = [-0, 1/3]"]
    session.names.get? "x" = some (.generator (.stored 0) .noise ⟨64, 64⟩) ∧
      Image.value? session.store (.generator (.stored 0) .noise ⟨64, 64⟩) "offset" =
        some (.point (-0) (1 / 3)) ∧
      (Property.Value.point (-0) (1 / 3)).IsFinite ∧
      session.step (.line "x.offset = [-0, 0.3333333333333333]") =
        (.ok (.propertySet "x" "offset"), session) ∧
      session.transcript ["x.offset = [-0, 0.3333333333333333]"] =
        ("x.offset = [-0, 0.3333333333333333]\n", session) := by
  intro session
  have bound : session.names.get? "x" = some (.generator (.stored 0) .noise ⟨64, 64⟩) := by
    decide +kernel
  have holds : Image.value? session.store (.generator (.stored 0) .noise ⟨64, 64⟩) "offset" =
      some (.point (-0) (1 / 3)) := by
    decide +kernel
  have finite : (Property.Value.point (-0) (1 / 3)).IsFinite := by
    unfold Property.Value.IsFinite
    decide +kernel
  have line : (Property.Value.point (-0) (1 / 3)).echo "x" "offset" =
      "x.offset = [-0, 0.3333333333333333]" := by
    decide +kernel
  have echoed := echo_changes_nothing _ _ bound holds finite
  rw [line] at echoed
  exact ⟨bound, holds, finite, echoed⟩

end Session

end ImageGraph
