import ImageGraph.Proofs.Effect
import ImageGraph.Proofs.Placing
import ImageGraph.Proofs.Trimming

/-!
Routing. A line is told apart by a few of its characters, an expression is known by all of its tokens.
No expression has a character that would make its line an assignment or a comment, but one may end in
a dot, and then its line lists properties. Every other expression is shown as the image that it
describes.
-/

set_option autoImplicit false

namespace ImageGraph

open ImageGraph.Expr (Row isSolid)
open ImageGraph.Expr.Token (isGap)

namespace Line

variable {text : String}

/-- A line asks for something if it is neither blank nor a comment. -/
def Asks (text : String) : Prop :=
  ¬((Text.trim text).isEmpty = true ∨ (Text.trim text).toList.head? = some '#')

theorem asks_of_chars {first : Char} {rest : List Char}
    (chars : (Text.trim text).toList = first :: rest) (plain : first ≠ '#') : Asks text := by
  rintro (empty | hash)
  · rw [String.isEmpty_iff.1 empty] at chars
    cases chars
  · rw [chars] at hash
    exact plain (Option.some.inj hash)

/-- A line asks for something if a character of it is no blank, and the first such character is no
`#`. -/
theorem asks_iff : Asks text ↔
    ∃ first, (text.toList.find? fun char => !Text.isBlank char) = some first ∧ first ≠ '#' := by
  rw [Asks, ← Text.head_trim, String.isEmpty_iff, ← String.toList_eq_nil_iff]
  cases (Text.trim text).toList with
  | nil => simp
  | cons first rest => simp

theorem read_assignment (asks : Asks text) {left right : String}
    (cuts : Text.cut '=' (Text.trim text) = some (left, right)) :
    read text = .assignment left right := by
  simp only [read, if_neg asks, cuts]

theorem read_listing (asks : Asks text) (uncut : Text.cut '=' (Text.trim text) = none)
    {name : String} (dot : Text.dropFinal '.' (Text.trim text) = some name) :
    read text = .listing (Text.trim name) := by
  simp only [read, if_neg asks, uncut, dot]

theorem read_expression (asks : Asks text) (uncut : Text.cut '=' (Text.trim text) = none)
    (noDot : Text.dropFinal '.' (Text.trim text) = none) :
    read text = .expression (Text.trim text) := by
  simp only [read, if_neg asks, uncut, noDot]

end Line

theorem Command.sides_of_asks {text : String} (asks : Line.Asks text) :
    (Command.line text).sides? = Text.trimmedSides '=' text := by
  rw [← Text.trimmed_sides_trim rfl, Text.trimmedSides]
  cases cuts : Text.cut '=' (Text.trim text) with
  | some sides =>
      rw [sides?, Line.read_assignment asks cuts]
      rfl
  | none =>
      cases dot : Text.dropFinal '.' (Text.trim text) with
      | some name =>
          rw [sides?, Line.read_listing asks cuts dot]
          rfl
      | none =>
          rw [sides?, Line.read_expression asks cuts dot]
          rfl

theorem line_sides {left right : String} (begun : left.toList ≠ [])
    (solid : ∀ char ∈ left.toList, isSolid char = true) :
    (Command.line (left ++ " = " ++ right)).sides? = some (left, Text.trim right) := by
  have noBlanks : ∀ char ∈ left.toList, Text.isBlank char = false :=
    fun char member => Expr.not_blank_of_solid (solid char member)
  have blank : ∀ char ∈ [' '], Text.isBlank char = true := List.forall_mem_singleton.2 rfl
  have parts : (left ++ " = " ++ right).toList =
      (left.toList ++ [' ']) ++ '=' :: ([' '] ++ right.toList) := by
    simp
  have absent : '=' ∉ left.toList ++ [' '] := by
    intro member
    rcases List.mem_append.1 member with inside | blank
    · exact absurd (solid _ inside) (by decide)
    · exact absurd (List.mem_singleton.1 blank) (by decide)
  have asks : Line.Asks (left ++ " = " ++ right) := by
    obtain ⟨first, rest, chars⟩ := List.exists_cons_of_ne_nil begun
    have member : first ∈ left.toList := chars ▸ List.mem_cons_self
    refine Line.asks_iff.2 ⟨first, ?_, ?_⟩
    · rw [parts, chars, List.cons_append, List.cons_append, List.find?_cons, noBlanks first member]
      rfl
    · rintro rfl
      exact absurd (solid '#' member) (by decide)
  rw [Command.sides_of_asks asks, Text.trimmedSides, Text.cut_first parts absent, Option.map_some,
    Prod.map_apply, Text.trim_blanks_behind _ blank, Text.trim_blanks_before _ blank,
    String.ofList_toList, String.ofList_toList, (Text.Snug.of_solid begun noBlanks).trim]

namespace Expr

theorem gap_of_blank {char : Char} (kept : isGap char = true ∨ isSolid char = true)
    (blank : Text.isBlank char = true) : isGap char = true := by
  rcases kept with gap | solid
  · exact gap
  · rw [not_blank_of_solid solid] at blank
    cases blank

theorem Reads.begun {tokens : List Placed} {part : Part} (reads : Reads tokens part)
    (filled : ∀ list, part ≠ .items list) : tokens ≠ [] := by
  induction reads with
  | atom | name | group | array | call | minus => exact List.cons_ne_nil _ _
  | plain reads begun => exact begun (by simp)
  | single reads begun => exact begun (by simp)
  | extend => exact List.append_ne_nil_of_right_ne_nil _ (List.cons_ne_nil _ _)
  | none => exact absurd rfl (filled _)
  | one => exact absurd rfl (filled _)
  | comma => exact absurd rfl (filled _)

theorem Row.begun {afterOperand final : Bool} {chars : List Char} {tokens : List Token}
    (row : Row afterOperand chars tokens final) (begun : tokens ≠ []) : chars ≠ [] := by
  cases row with
  | blank => exact absurd rfl begun
  | token => exact List.append_ne_nil_of_right_ne_nil _ (List.cons_ne_nil _ _)

theorem Row.trim {final : Bool} {chars : List Char} {tokens : List Token}
    (row : Row false chars tokens final) : Row false (Text.trimList chars) tokens final := by
  obtain ⟨before, behind, parts, blanksBefore, blanksBehind⟩ := Text.trim_list_parts chars
  have kept := row.chars_solid
  generalize Text.trimList chars = trimmed at parts
  subst parts
  simp only [List.mem_append] at kept
  have start := row.trim_start fun char member =>
    gap_of_blank (kept char (.inl member)) (blanksBefore char member)
  exact start.trim_end fun char member =>
    gap_of_blank (kept char (.inr (.inr member))) (blanksBehind char member)

/-- What is known of the text of an expression when the blanks at its ends are taken away. -/
structure Trims (text : String) (result : Expr) : Prop where
  parsed : ∃ again, parse (Text.trim text) = .ok again ∧ again.bare = result.bare
  begun : (Text.trim text).toList ≠ []
  kept : ∀ char ∈ (Text.trim text).toList, isGap char = true ∨ isSolid char = true

theorem trims_of_parsed {text : String} {result : Expr} (parsed : parse text = .ok result) :
    Trims text result := by
  have read := parsed
  rw [parse_ok_iff, read_chars_iff] at read
  obtain ⟨complete, chain, reads, -⟩ := read
  obtain ⟨final, row⟩ := row_of_scan complete
  have trimmed := row.trim
  have begun := trimmed.begun (by simpa using reads.begun (by simp))
  rw [← text.ofList_toList] at parsed
  refine ⟨parse_of_row row trimmed parsed, ?_, ?_⟩
  · rwa [Text.trim, String.toList_ofList]
  · rw [Text.trim, String.toList_ofList]
    exact trimmed.chars_solid

end Expr

theorem compile_trimmed {names : Registry} {defaults : Defaults} {text : String} {result again : Expr}
    (parsed : parse text = .ok result) (parsedAgain : parse (Text.trim text) = .ok again)
    (same : again.bare = result.bare) :
    compile names defaults (Text.trim text) = compile names defaults text := by
  have value : evaluate (.graph names defaults) again = evaluate (.graph names defaults) result := by
    rw [← evaluate_bare, same, evaluate_bare]
  simp only [compile, parsed, parsedAgain, bind, Except.bind, value]

section Trimmed

variable {text : String} {result : Expr}

theorem Expr.Trims.absent (trims : Trims text result) {char : Char} (noGap : isGap char = false)
    (noSolid : isSolid char = false) : char ∉ (Text.trim text).toList := by
  intro member
  rcases trims.kept char member with gap | solid
  · rw [noGap] at gap
    cases gap
  · rw [noSolid] at solid
    cases solid

theorem Expr.Trims.asks (trims : Trims text result) : Line.Asks text := by
  obtain ⟨first, rest, chars⟩ := List.exists_cons_of_ne_nil trims.begun
  apply Line.asks_of_chars chars
  rintro rfl
  exact trims.absent rfl rfl (chars ▸ List.mem_cons_self)

theorem Expr.Trims.uncut (trims : Trims text result) :
    Text.cut '=' (Text.trim text) = none :=
  Text.uncut_iff.2 (trims.absent rfl rfl)

end Trimmed

namespace Session

theorem step_expression {session : Session} {line text : String} {image : Image}
    (read : Line.read line = .expression text) (compiled : session.compile text = .ok image) :
    session.step (.line line) = (.ok (.render image), session) := by
  apply step_of_ends
  rw [Action.perform, Action.execute, read]
  exact Action.ends_get_bind (Action.ends_lift_ok_bind compiled (Action.ends_pure rfl))

theorem step_listing {session : Session} {line name : String}
    (read : Line.read line = .listing name) :
    session.step (.line line) =
      ((session.listProperties name).map Outcome.listing, session) := by
  rw [step, Action.perform, Action.execute, read]
  change session.carryOut (liftM (session.listProperties name) >>= fun entries =>
    pure (Outcome.listing entries)) = _
  cases session.listProperties name <;> rfl

/-- A text that can be compiled is shown as the image that it is compiled to, unless it ends in a dot.
Then the properties of what stands before the dot are listed. Nothing is changed. -/
theorem compiled_shown_or_listed (session : Session) (text : String) (image : Image)
    (compiled : session.compile text = .ok image) :
    (Text.dropFinal '.' (Text.trim text) = none →
      session.step (.line text) = (.ok (.render image), session)) ∧
    ∀ name, Text.dropFinal '.' (Text.trim text) = some name →
      session.step (.line text) =
        ((session.listProperties (Text.trim name)).map Outcome.listing, session) := by
  obtain ⟨result, parsed, -⟩ := bind_eq_ok compiled
  have trims := Expr.trims_of_parsed parsed
  obtain ⟨again, parsedAgain, same⟩ := trims.parsed
  constructor
  · intro noDot
    apply step_expression (Line.read_expression trims.asks trims.uncut noDot)
    rw [Session.compile, compile_trimmed parsed parsedAgain same]
    exact compiled
  · intro name dot
    exact step_listing (Line.read_listing trims.asks trims.uncut dot)

theorem padded_number_shown :
    (start .standard).compile " 5.0 " = .ok (.ofColor .standard (.gray 5)) ∧
      (start .standard).step (.line " 5.0 ") =
        (.ok (.render (.ofColor .standard (.gray 5))), start .standard) := by
  have compiled : (start .standard).compile " 5.0 " = .ok (.ofColor .standard (.gray 5)) := by
    decide +kernel
  exact ⟨compiled, (compiled_shown_or_listed _ _ _ compiled).1 (by decide +kernel)⟩

/-- A number may end in its point, but its line does not show it. -/
theorem pointed_number_not_shown :
    (start .standard).compile "5." = .ok (.ofColor .standard (.gray 5)) ∧
      (start .standard).step (.line "5.") = (.error (.imageNotFound "5"), start .standard) := by
  constructor
  · decide +kernel
  · decide +kernel

end Session

end ImageGraph
