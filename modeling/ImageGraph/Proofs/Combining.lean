import ImageGraph.Proofs.Assigning
import ImageGraph.Proofs.Correspondence
import ImageGraph.Proofs.Form

/-!
Operators and the functions that they stand for. An operator between two images makes what the function
of its merger makes of them, with three of its properties set. Setting them by three further commands
leaves the same session behind, since a loose image is stored with the settings that it has.
-/

set_option autoImplicit false

namespace ImageGraph

namespace Operator

def merger : Operator → Merger
  | blend _ => .blend
  | displace => .displace

/-- The properties that an operator sets and what it sets them to. -/
def overrides (operator : Operator) : List (String × Property.Value) :=
  let own := match operator with
    | blend mode => ("mode", .choice mode.name)
    | displace => ("distance", .float 1)
  [own, ("placement", .choice "aspectFill"), ("extend", .choice "hold")]

/-- The commands that set the properties of an image as an operator does. -/
def overrideLines (operator : Operator) (name : String) : List Command :=
  let own := match operator with
    | blend mode => name ++ ".mode = ." ++ mode.name
    | displace => name ++ ".distance = 1"
  [.line own, .line (name ++ ".placement = .aspectFill"), .line (name ++ ".extend = .hold")]

/-- Two texts with an operator between them, each in parentheses. -/
def infixText (operator : Operator) (first second : String) : String :=
  "(" ++ first ++ ") " ++ operator.symbol ++ " (" ++ second ++ ")"

def callText (operator : Operator) (first second : String) : String :=
  operator.merger.name ++ "(" ++ first ++ ", " ++ second ++ ")"

end Operator

namespace Image

/-- An image with several of its values replaced, one after the other. -/
def withValues (image : Image) (entries : List (String × Property.Value)) : Image :=
  entries.foldl (fun current entry => current.withValue entry.1 entry.2) image

end Image

theorem Operator.combine_eq (operator : Operator) (first second : Image) :
    operator.combine first second =
      (Image.ofMerger operator.merger first second).withValues operator.overrides := by
  cases operator <;> rfl

section Described

variable {names : Registry} {defaults : Defaults} {operator : Operator} {left right : Expr}
  {span : Span} {image : Image}

theorem apply_operator_combine {scope : Scope} {first second : Value}
    (pictorial : ¬(operator.isArithmetic = true ∧
      (∃ number, first = .number number) ∧ ∃ number, second = .number number)) :
    applyOperator scope operator first second =
      applyOperator.combine scope operator first second := by
  cases first with
  | number a =>
      cases second with
      | number b =>
          have meaning := operator.arithmetic_some a b
          cases computed : operator.arithmetic? a b with
          | none => simp only [applyOperator, Value.number?, computed]
          | some result =>
              rw [computed] at meaning
              exact absurd ⟨meaning.symm, ⟨a, rfl⟩, b, rfl⟩ pictorial
      | _ => rfl
  | _ => rfl

/-- Between two expressions that are not both numbers an operator describes the combination of what
they describe. -/
theorem binary_described_iff
    (pictorial : ¬(operator.isArithmetic = true ∧
      (∃ number, evaluate (.graph names defaults) left = .ok (.number number)) ∧
      ∃ number, evaluate (.graph names defaults) right = .ok (.number number))) :
    (Expr.binary operator left right span).describe names defaults = .ok image ↔
      ∃ first second, left.describe names defaults = .ok first ∧
        right.describe names defaults = .ok second ∧ operator.combine first second = image := by
  have combined {a b : Value} (leftValue : evaluate (.graph names defaults) left = .ok a)
      (rightValue : evaluate (.graph names defaults) right = .ok b) :
      evaluate (.graph names defaults) (.binary operator left right span) =
        applyOperator.combine (.graph names defaults) operator a b := by
    rw [evaluate, leftValue, rightValue]
    apply apply_operator_combine
    rintro ⟨arithmetic, ⟨x, rfl⟩, y, rfl⟩
    exact pictorial ⟨arithmetic, ⟨x, leftValue⟩, y, rightValue⟩
  constructor
  · intro describes
    obtain ⟨value, evaluated, serves⟩ := described_iff.1 describes
    have operands := evaluated
    rw [evaluate] at operands
    obtain ⟨a, leftValue, operands⟩ := bind_eq_ok operands
    obtain ⟨b, rightValue, -⟩ := bind_eq_ok operands
    rw [combined leftValue rightValue] at evaluated
    obtain ⟨first, firstServes, evaluated⟩ := bind_eq_ok evaluated
    obtain ⟨second, secondServes, evaluated⟩ := bind_eq_ok evaluated
    cases evaluated
    exact ⟨first, second, described_iff.2 ⟨a, leftValue, firstServes⟩,
      described_iff.2 ⟨b, rightValue, secondServes⟩, Except.ok.inj serves⟩
  · rintro ⟨first, second, leftDescribes, rightDescribes, rfl⟩
    obtain ⟨a, leftValue, firstServes⟩ := described_iff.1 leftDescribes
    obtain ⟨b, rightValue, secondServes⟩ := described_iff.1 rightDescribes
    refine described_iff.2 ⟨.image (operator.combine first second), ?_, rfl⟩
    rw [combined leftValue rightValue, applyOperator.combine]
    simp only [firstServes, secondServes]
    rfl

theorem merger_described_iff (kind : Merger) :
    (Expr.call kind.name [left, right] span).describe names defaults = .ok image ↔
      ∃ first second, left.describe names defaults = .ok first ∧
        right.describe names defaults = .ok second ∧ Image.ofMerger kind first second = image := by
  have found : Constructor.named? kind.name = some (.image (.merger kind)) :=
    Constructor.named_name (.image (.merger kind))
  have evaluated : evaluate (.graph names defaults) (.call kind.name [left, right] span) = (do
      let first ← left.describe names defaults
      let second ← right.describe names defaults
      pure (.image (.ofMerger kind first second))) := by
    rw [evaluate.eq_def]
    simp only [found, Expr.describe, bind_assoc]
  constructor
  · intro describes
    obtain ⟨value, isValue, serves⟩ := described_iff.1 describes
    rw [evaluated] at isValue
    obtain ⟨first, leftDescribes, isValue⟩ := bind_eq_ok isValue
    obtain ⟨second, rightDescribes, isValue⟩ := bind_eq_ok isValue
    cases isValue
    exact ⟨first, second, leftDescribes, rightDescribes, Except.ok.inj serves⟩
  · rintro ⟨first, second, leftDescribes, rightDescribes, rfl⟩
    refine described_iff.2 ⟨.image (.ofMerger kind first second), ?_, rfl⟩
    rw [evaluated, leftDescribes, rightDescribes]
    rfl

end Described

section Texts

variable {names : Registry} {defaults : Defaults} {first second : String} {left right : Expr}

theorem identifier_spelled {name : String} (identifier : isIdentifier name = true) :
    Expr.Token.Spelling (.word name) name.toList := by
  unfold isIdentifier at identifier
  split at identifier
  · cases identifier
  · rename_i start rest chars
    obtain ⟨starts, others⟩ := Bool.and_eq_true_iff.1 identifier
    have spelled := Expr.Token.Spelling.word starts (List.all_eq_true.1 others)
    rwa [← chars, String.ofList_toList] at spelled

theorem infix_parsed (firstParsed : parse first = .ok left) (secondParsed : parse second = .ok right)
    (operator : Operator) :
    ∃ result, parse (operator.infixText first second) = .ok result ∧
      result.bare = (Expr.binary operator left right Expr.nowhere).bare := by
  have readable := Expr.Readable.binary Expr.space_gap operator Expr.nowhere
    (Expr.readable_of_parsed firstParsed) (Expr.readable_of_parsed secondParsed)
  have text : operator.infixText first second = .ofList ('(' :: (first.toList ++ ')' :: ([' '] ++
      (operator.symbol.toList ++ ([' '] ++ '(' :: (second.toList ++ [')'])))))) := by
    rw [← String.toList_inj]
    simp [Operator.infixText]
  rw [text]
  exact readable.parse

theorem call_parsed (firstParsed : parse first = .ok left) (secondParsed : parse second = .ok right)
    (operator : Operator) :
    ∃ result, parse (operator.callText first second) = .ok result ∧
      result.bare = (Expr.call operator.merger.name [left, right] Expr.nowhere).bare := by
  have items := Expr.Readable.items Expr.space_gap
    (.cons (Expr.readable_of_parsed firstParsed) (.cons (Expr.readable_of_parsed secondParsed) .nil))
  have readable := Expr.Readable.call Expr.nowhere
    (identifier_spelled (Kind.merger operator.merger).name_identifier) items
  have text : operator.callText first second =
      .ofList (operator.merger.name.toList ++ '(' :: (List.intercalate (',' :: [' '])
        [first.toList, second.toList] ++ [')'])) := by
    rw [← String.toList_inj]
    simp [Operator.callText, List.intercalate]
  rw [text]
  exact readable.whole.parse

end Texts

/-- Images of a kind have a property that can be set to a value, and the value is shown as it is. -/
structure Kind.Takes (kind : Kind) (property : String) (value : Property.Value) : Prop where
  fits : ∃ declared, Settings.property? kind.properties property = some declared ∧
    value.fits declared.kind = true
  finite : value.IsFinite
  attained : value.Attained

theorem Kind.takes_choice {kind : Kind} {property chosen : String}
    (fits : ∃ declared, Settings.property? kind.properties property = some declared ∧
      (Property.Value.choice chosen).fits declared.kind = true) :
    kind.Takes property (.choice chosen) where
  fits := fits
  finite := by simp [Property.Value.IsFinite, Property.Value.floats]
  attained := Property.Value.attained_other rfl

theorem Operator.overrides_taken (operator : Operator) :
    ∀ entry ∈ operator.overrides, (Kind.merger operator.merger).Takes entry.1 entry.2 := by
  intro entry member
  simp only [overrides, List.mem_cons, List.not_mem_nil, or_false] at member
  rcases member with rfl | rfl | rfl
  · cases operator with
    | blend mode => exact Kind.takes_choice ⟨_, rfl, by cases mode <;> decide⟩
    | displace =>
        have finite : (Property.Value.float 1).IsFinite := by
          unfold Property.Value.IsFinite
          decide +kernel
        exact ⟨⟨_, rfl, rfl⟩, finite, Property.Value.attained_other rfl⟩
  · cases operator <;> exact Kind.takes_choice ⟨_, rfl, by decide⟩
  · cases operator <;> exact Kind.takes_choice ⟨_, rfl, by decide⟩

theorem Operator.override_lines_eq (operator : Operator) (name : String) :
    operator.overrideLines name =
      operator.overrides.map fun entry => .line (entry.2.echo name entry.1) := by
  have one : Number.text 1 = "1" := by decide +kernel
  have dotted (chosen : String) :
      ".mode = ." ++ chosen = "." ++ ("mode" ++ (" = " ++ ("." ++ chosen))) := by
    rw [← String.toList_inj]
    simp
  cases operator <;>
    simp [overrideLines, overrides, Property.Value.echo, Property.Value.text, Text.dotted, one,
      dotted, String.append_assoc]

namespace Session

variable {session : Session} {name property : String} {image : Image} {value : Property.Value}
  {settings : Settings}

/-- A value that is given to a loose image before it is stored can be given to it afterwards. -/
theorem register_with_value (loose : image.home = .loose settings) :
    session.register name (image.withValue property value) =
      (session.register name image).replaceSettings (image.settle session.store).1
        (Settings.put image.kind.properties settings property value) := by
  generalize isPut : Settings.put image.kind.properties settings property value = put
  let below := (Image.settleAll image.inputs session.store).2
  have settled := Image.settle_loose image session.store loose
  have changed : image.withValue property value = image.moveTo (.loose put) := by
    simp only [Image.withValue, loose, isPut]
  have settledChanged : (image.withValue property value).settle session.store =
      ((image.settle session.store).1, below.push put) := by
    rw [changed, Image.settle_loose _ _ (Image.home_move_to _ _), settled]
    simp only [Image.inputs_move_to, Image.with_inputs_move_to, Image.move_to_move_to]
    rfl
  have home : (image.settle session.store).1.home = .stored below.size := by
    rw [settled, Image.home_move_to]
  have store : (session.register name image).store = below.push settings :=
    congrArg Prod.snd settled
  have replaced : (below.push settings).set! below.size put = below.push put := by
    apply Array.ext'
    simp [Array.set!_eq_setIfInBounds]
  rw [replace_settings_stored _ _ home, store, replaced]
  simp only [register, settledChanged]

theorem step_override (named : isIdentifier name = true) (loose : image.home = .loose settings)
    (takes : image.kind.Takes property value) :
    (session.register name image).step (.line (value.echo name property)) =
      (.ok (.propertySet name property), session.register name (image.withValue property value)) := by
  obtain ⟨declared, found, fits⟩ := takes.fits
  have bound := (session.get_register name name image).trans (if_pos rfl)
  have current : (image.settle session.store).1.settings (session.register name image).store =
      settings :=
    image.settings_settle session.store loose
  rw [← image.kind_settle session.store] at found
  rw [step_echo named bound found fits takes.finite takes.attained, current, Image.kind_settle,
    register_with_value loose]

/-- Setting values of a newly stored image leaves the session behind that has stored it with them. -/
theorem run_overrides (named : isIdentifier name = true) {entries : List (String × Property.Value)}
    (loose : image.home = .loose settings)
    (taken : ∀ entry ∈ entries, image.kind.Takes entry.1 entry.2) :
    (session.register name image).run (entries.map fun entry => .line (entry.2.echo name entry.1)) =
      session.register name (image.withValues entries) := by
  induction entries generalizing image settings with
  | nil => rfl
  | cons entry entries induction =>
      have changed : (image.withValue entry.1 entry.2).home =
          .loose (Settings.put image.kind.properties settings entry.1 entry.2) := by
        simp only [Image.withValue, loose, Image.home_move_to]
      rw [List.forall_mem_cons] at taken
      rw [List.map_cons, run, List.foldl_cons, step_override named loose taken.1]
      exact induction changed (by simpa using taken.2)

/-- An operator between two expressions that are not both numbers does what the call of its merger does
together with three further commands, and it succeeds whenever the call does. -/
theorem infix_as_call {first second : String} {operator : Operator} {left right : Expr}
    (session : Session) (identifier : isIdentifier name = true) (firstParsed : parse first = .ok left)
    (secondParsed : parse second = .ok right)
    (pictorial : ¬(operator.isArithmetic = true ∧
      (∃ number, evaluate (.graph session.names session.defaults) left = .ok (.number number)) ∧
      ∃ number, evaluate (.graph session.names session.defaults) right = .ok (.number number))) :
    let direct := session.step (.line (name ++ " = " ++ operator.infixText first second))
    let called := session.step (.line (name ++ " = " ++ operator.callText first second))
    ((∃ outcome, direct.1 = .ok outcome) ↔ ∃ outcome, called.1 = .ok outcome) ∧
      ((∃ outcome, direct.1 = .ok outcome) →
        direct.2 = called.2.run (operator.overrideLines name)) := by
  intro direct called
  obtain ⟨infixResult, infixParsed, infixBare⟩ := infix_parsed firstParsed secondParsed operator
  obtain ⟨callResult, callParsed, callBare⟩ := call_parsed firstParsed secondParsed operator
  have directNamed : direct = session.named name (operator.infixText first second) :=
    step_name_line identifier infixParsed
  have calledNamed : called = session.named name (operator.callText first second) :=
    step_name_line identifier callParsed
  have infixCompiled (image : Image) :
      session.compile (operator.infixText first second) = .ok image ↔
        ∃ a b, left.describe session.names session.defaults = .ok a ∧
          right.describe session.names session.defaults = .ok b ∧ operator.combine a b = image := by
    rw [Session.compile, compile_of_bare infixParsed infixBare, binary_described_iff pictorial]
  have callCompiled (image : Image) :
      session.compile (operator.callText first second) = .ok image ↔
        ∃ a b, left.describe session.names session.defaults = .ok a ∧
          right.describe session.names session.defaults = .ok b ∧
          Image.ofMerger operator.merger a b = image := by
    rw [Session.compile, compile_of_bare callParsed callBare, merger_described_iff]
  rw [directNamed, calledNamed, named_succeeds_iff, named_succeeds_iff]
  constructor
  · constructor
    · rintro ⟨image, compiled⟩
      obtain ⟨a, b, leftDescribes, rightDescribes, -⟩ := (infixCompiled image).1 compiled
      exact ⟨_, (callCompiled _).2 ⟨a, b, leftDescribes, rightDescribes, rfl⟩⟩
    · rintro ⟨image, compiled⟩
      obtain ⟨a, b, leftDescribes, rightDescribes, -⟩ := (callCompiled image).1 compiled
      exact ⟨_, (infixCompiled _).2 ⟨a, b, leftDescribes, rightDescribes, rfl⟩⟩
  · rintro ⟨image, compiled⟩
    obtain ⟨a, b, leftDescribes, rightDescribes, rfl⟩ := (infixCompiled image).1 compiled
    have calls := (callCompiled _).2 ⟨a, b, leftDescribes, rightDescribes, rfl⟩
    rw [named_ok compiled, named_ok calls, operator.override_lines_eq, operator.combine_eq,
      run_overrides identifier rfl operator.overrides_taken]

/-- The sum of an image and its blur is their blend in the mode of that name. -/
theorem sum_as_blend :
    let session := (start .standard).run [.line "x = noise(64)"]
    isIdentifier "n" = true ∧ parse "x" = .ok (.identifier "x" ⟨0, 1⟩) ∧
      parse "blur(x)" = .ok (.call "blur" [.identifier "x" ⟨5, 6⟩] ⟨0, 7⟩) ∧
      (∃ outcome, (session.step (.line "n = (x) + (blur(x))")).1 = .ok outcome) ∧
      (session.step (.line "n = (x) + (blur(x))")).2 =
        (session.step (.line "n = blend(x, blur(x))")).2.run
          [.line "n.mode = .add", .line "n.placement = .aspectFill", .line "n.extend = .hold"] := by
  intro session
  have identifier : isIdentifier "n" = true := by decide
  have firstParsed : parse "x" = .ok (.identifier "x" ⟨0, 1⟩) := by cbv
  have secondParsed : parse "blur(x)" = .ok (.call "blur" [.identifier "x" ⟨5, 6⟩] ⟨0, 7⟩) := by cbv
  have bound : session.names.get? "x" = some (.generator (.stored 0) .noise ⟨64, 64⟩) := by
    decide +kernel
  have pictorial : ¬((Operator.blend .add).isArithmetic = true ∧
      (∃ number, evaluate (.graph session.names session.defaults) (.identifier "x" ⟨0, 1⟩) =
        .ok (.number number)) ∧
      ∃ number, evaluate (.graph session.names session.defaults)
        (.call "blur" [.identifier "x" ⟨5, 6⟩] ⟨0, 7⟩) = .ok (.number number)) := by
    rintro ⟨-, ⟨number, isNumber⟩, -⟩
    rw [evaluate, Scope.lookup] at isNumber
    simp [bound] at isNumber
  have succeeds : ∃ outcome, (session.step (.line "n = (x) + (blur(x))")).1 = .ok outcome :=
    ⟨.registered "n", by decide +kernel⟩
  have sum : "n" ++ " = " ++ (Operator.blend .add).infixText "x" "blur(x)" =
      "n = (x) + (blur(x))" := by
    decide +kernel
  have blend : "n" ++ " = " ++ (Operator.blend .add).callText "x" "blur(x)" =
      "n = blend(x, blur(x))" := by
    decide +kernel
  have lines : (Operator.blend .add).overrideLines "n" =
      [.line "n.mode = .add", .line "n.placement = .aspectFill", .line "n.extend = .hold"] := by
    decide +kernel
  have combined := infix_as_call session identifier firstParsed secondParsed pictorial
  rw [sum, blend, lines] at combined
  exact ⟨identifier, firstParsed, secondParsed, succeeds, combined.2 succeeds⟩

end Session

end ImageGraph
