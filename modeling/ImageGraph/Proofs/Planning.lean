import ImageGraph.Proofs.Effect
import ImageGraph.Proofs.Mentions
import ImageGraph.Proofs.Trimming

/-!
What an assignment comes to. Its outcome, or its error, and the change that it makes can be planned from
the names of a session alone: neither reading nor compiling looks at the store. Carrying out the command
is carrying out its plan, so commands are compared by comparing their plans. A plan depends only on the
names that the command mentions.
-/

set_option autoImplicit false

namespace ImageGraph

section Requests

/-- The kind of the values that have a shape. -/
def Shape.kind : Shape → Property.Kind
  | point => .point
  | size => .size
  | rect => .rect
  | color => .color

theorem read_shape_fits {property text : String} {shape : Shape} {value : Property.Value}
    (read : readShape property shape text = .ok (.store value)) : value.fits shape.kind = true := by
  obtain ⟨numbers, _, makes⟩ := bind_eq_ok read
  split at makes
  · rename_i made shaped
    cases makes
    unfold Shape.value? at shaped
    split at shaped <;> cases shaped <;> rfl
  · cases makes

theorem read_choice_fits {property text : String} {cases : List String} {value : Property.Value}
    (read : readChoice property cases text = .ok (.store value)) :
    value.fits (.choice cases) = true := by
  unfold readChoice at read
  simp only at read
  split at read
  · cases read
  · split at read
    · rename_i present
      cases read
      exact present
    · cases read
  · cases read

theorem Request.stored_of_map {Source : Type} {source : Except Error Source}
    {store : Source → Property.Value} {value : Property.Value}
    (read : (source.map fun result => Request.store (store result)) = .ok (.store value)) :
    ∃ result, value = store result := by
  cases source with
  | error error => cases read
  | ok result =>
      cases read
      exact ⟨result, rfl⟩

theorem read_request_fits {property : Property} {text : String} {value : Property.Value}
    (read : readRequest property text = .ok (.store value)) : value.fits property.kind = true := by
  unfold readRequest at read
  simp only at read
  split at read
  case h_1 kind =>
    obtain ⟨number, rfl⟩ := Request.stored_of_map read
    rw [kind]
    rfl
  case h_2 kind =>
    obtain ⟨number, rfl⟩ := Request.stored_of_map read
    rw [kind]
    rfl
  case h_3 kind =>
    obtain ⟨flag, rfl⟩ := Request.stored_of_map read
    rw [kind]
    rfl
  case h_8 cases kind =>
    rw [kind]
    exact read_choice_fits read
  all_goals
    rename_i kind
    rw [kind]
    exact read_shape_fits read

end Requests

/-- A change that an assignment makes: an image gets a name, or a value. -/
inductive Change where
  | register (name : String) (image : Image)
  | put (image : Image) (property : String) (value : Property.Value)

/-- An assignment that has been planned: its outcome and the change that it makes, if any. -/
abbrev Plan := Except Error (Outcome × Option Change)

def Plan.change? : Plan → Option Change
  | .ok (_, change) => change
  | .error _ => none

section Plans

variable (names : Registry) (defaults : Defaults)

def planName (name text : String) : Plan :=
  if isIdentifier name then do
    let image ← compile names defaults text
    pure (.registered name, some (.register name image))
  else .error (.invalidName name)

def planProperty (name property text : String) : Plan := do
  let image ← names.find name
  match Settings.property? image.kind.properties property with
  | none => .error (.propertyNotFound name property image.propertyNames)
  | some declared =>
      match ← readRequest declared text with
      | .cases entries => pure (.listing entries, none)
      | .store value => pure (.propertySet name property, some (.put image property value))

def planPath (path text : String) : Plan := do
  match ← splitPath path with
  | none => planName names defaults path text
  | some (name, property) => planProperty names name property text

/-- The plan of an assignment with these sides, which have no blanks at their ends. -/
def plan (path text : String) : Plan :=
  if path.isEmpty then .error .emptyName
  else if text.isEmpty then .error (.emptyValue path)
  else planPath names defaults path text

end Plans

section Paths

variable {names : Registry} {defaults : Defaults} {path text : String}

theorem plan_path_undotted (undotted : splitPath path = .ok none) :
    planPath names defaults path text = planName names defaults path text := by
  rw [planPath, undotted]
  rfl

theorem plan_path_dotted {name property : String}
    (dotted : splitPath path = .ok (some (name, property))) :
    planPath names defaults path text = planProperty names name property text := by
  rw [planPath, dotted]
  rfl

end Paths

namespace Session

def make (session : Session) : Change → Session
  | .register name image => session.register name image
  | .put image property value =>
      session.replaceSettings image
        (Settings.put image.kind.properties (image.settings session.store) property value)

def makeAny (session : Session) : Option Change → Session
  | none => session
  | some change => session.make change

def carry (session : Session) (planned : Plan) : Except Error Outcome × Session :=
  (planned.map Prod.fst, session.makeAny planned.change?)

end Session

namespace Action

variable {First Result : Type} {session : Session}

/-- The action ends as carrying out the plan does. -/
def Realizes (session : Session) (action : Action Outcome) (planned : Plan) : Prop :=
  Ends session action (fun outcome after => (.ok outcome, after) = session.carry planned)
    (fun error after => (.error error, after) = session.carry planned)

theorem ends_planned_bind (succeeds : Plan → Result → Session → Prop)
    {source : Except Error First} {next : First → Action Result} {planned : First → Plan}
    (continues : ∀ value, source = .ok value →
      Ends session (next value) (succeeds (planned value))
        (fun error after => (.error error, after) = session.carry (planned value))) :
    Ends session (liftM source >>= next) (succeeds (source >>= planned))
      (fun error after => (.error error, after) = session.carry (source >>= planned)) := by
  refine ends_lift_bind ?_ ?_
  · intro value computed
    rw [computed]
    exact continues value computed
  · intro error fails
    rw [fails]
    rfl

theorem realizes_lift_bind {source : Except Error First} {next : First → Action Outcome}
    {planned : First → Plan}
    (continues : ∀ value, source = .ok value → Realizes session (next value) (planned value)) :
    Realizes session (liftM source >>= next) (source >>= planned) :=
  ends_planned_bind (fun planned outcome after => (.ok outcome, after) = session.carry planned)
    continues

/-- How an assignment to a property agrees with its plan. Without a dot nothing has been done yet. -/
def AgreesWith (session : Session) (path : String) (planned : Plan) :
    Option Assigned → Session → Prop
  | none, after => splitPath path = .ok none ∧ after = session
  | some (.set name property _), after =>
      (.ok (.propertySet name property), after) = session.carry planned
  | some (.cases entries), after => (.ok (.listing entries), after) = session.carry planned

theorem assign_property_agrees (path text : String) :
    Ends session (assignProperty path text)
      (AgreesWith session path (planPath session.names session.defaults path text))
      (fun error after =>
        (.error error, after) =
          session.carry (planPath session.names session.defaults path text)) := by
  apply ends_planned_bind (AgreesWith session path)
  intro place split
  rcases place with _ | ⟨name, property⟩
  · exact ends_pure ⟨split, rfl⟩
  apply ends_get_bind
  apply ends_planned_bind (AgreesWith session path)
  intro image _
  cases isDeclared : Settings.property? image.kind.properties property with
  | none => exact ends_throw rfl
  | some declared =>
      apply ends_planned_bind (AgreesWith session path)
      intro request read
      rcases request with value | entries
      · apply ends_bind (ends_set_declared isDeclared (read_request_fits read))
        intro _ after replaced
        subst replaced
        exact ends_pure rfl
      · exact ends_pure rfl

theorem assign_name_realizes (name text : String) :
    Realizes session (assignName name text)
      (planName session.names session.defaults name text) := by
  unfold assignName planName
  split
  · apply ends_get_bind
    apply realizes_lift_bind
    intro image compiled
    exact ends_modify_bind (ends_pure rfl)
  · exact ends_throw rfl

theorem assign_realizes (left right : String) :
    Realizes session (assign left right)
      (plan session.names session.defaults (Text.trim left) (Text.trim right)) := by
  unfold assign plan
  simp only
  split
  · exact ends_throw rfl
  split
  · exact ends_throw rfl
  apply ends_bind (assign_property_agrees _ _)
  intro done after agrees
  rcases done with _ | name | entries
  · obtain ⟨undotted, rfl⟩ := agrees
    rw [plan_path_undotted undotted]
    exact assign_name_realizes _ _
  · exact ends_pure agrees
  · exact ends_pure agrees

end Action

namespace Session

variable {session : Session} {command : Command} {path text : String}

theorem step_of_sides (sides : command.sides? = some (path, text)) :
    session.step command = session.carry (plan session.names session.defaults path text) := by
  obtain ⟨left, right, rfl, rfl, assigns⟩ := perform_of_sides sides
  apply step_of_ends
  rw [assigns]
  exact Action.assign_realizes left right

/-- Where a command fails: in what is planned for its sides, or in what else its line asks for. -/
inductive Failure (session : Session) : Command → Error → Prop where
  | assigning {command : Command} {path text : String} {error : Error}
      (sides : command.sides? = some (path, text))
      (fails : plan session.names session.defaults path text = .error error) :
      Failure session command error
  | listing {text name : String} {error : Error} (read : Line.read text = .listing name)
      (fails : session.names.find name = .error error) : Failure session (.line text) error
  | showing {text shown : String} {error : Error} (read : Line.read text = .expression shown)
      (fails : session.compile shown = .error error) : Failure session (.line text) error

theorem line_ends (session : Session) {text : String} (plain : (Command.line text).sides? = none) :
    Action.Ends session (Action.perform (.line text))
      (fun outcome _ => ∀ image, outcome = .render image →
        ∃ shown, Line.read text = .expression shown ∧ session.compile shown = .ok image)
      (fun error _ => session.Failure (.line text) error) := by
  rw [Command.sides?] at plain
  rw [Action.perform, Action.execute]
  cases read : Line.read text with
  | nothing =>
      apply Action.ends_pure
      intro image isRender
      cases isRender
  | assignment left right =>
      rw [read] at plain
      cases plain
  | listing name =>
      refine Action.ends_get_bind (Action.ends_lift_bind ?_ fun error fails => ?_)
      · intro entries _
        apply Action.ends_pure
        intro image isRender
        cases isRender
      · rw [listProperties] at fails
        cases found : session.names.find name with
        | ok image =>
            rw [found] at fails
            cases fails
        | error own =>
            rw [found] at fails
            cases fails
            exact .listing read found
  | expression shown =>
      refine Action.ends_get_bind (Action.ends_lift_bind ?_ fun error fails => ?_)
      · rintro picture compiled
        apply Action.ends_pure
        rintro _ ⟨⟩
        exact ⟨shown, rfl, compiled⟩
      · exact .showing read fails

theorem step_fails {error : Error} (fails : (session.step command).1 = .error error) :
    session.Failure command error := by
  cases sides : command.sides? with
  | some both =>
      rw [step_of_sides sides] at fails
      cases planned : plan session.names session.defaults both.1 both.2 with
      | ok done =>
          rw [planned] at fails
          cases fails
      | error own =>
          rw [planned] at fails
          cases fails
          exact .assigning sides planned
  | none =>
      cases command with
      | assign left right => cases sides
      | line text =>
          rcases Action.ends_cases (line_ends session sides) with
            ⟨outcome, after, carried, _⟩ | ⟨own, after, carried, failure⟩
          · rw [step, carried] at fails
            cases fails
          · rw [step, carried] at fails
            cases fails
            exact failure

end Session

/-- The outcomes of assignments: a name is given, a value is stored, or cases are listed. -/
def Outcome.OfAssignment : Outcome → Prop
  | registered _ | propertySet _ _ | listing _ => True
  | nothing | render _ => False

theorem plan_outcome {names : Registry} {defaults : Defaults} {path text : String}
    {outcome : Outcome} {change : Option Change}
    (planned : plan names defaults path text = .ok (outcome, change)) : outcome.OfAssignment := by
  unfold plan at planned
  split at planned
  · cases planned
  split at planned
  · cases planned
  obtain ⟨place, split, planned⟩ := bind_eq_ok planned
  rcases place with _ | ⟨name, property⟩
  · simp only [planName] at planned
    split at planned
    · obtain ⟨_, _, done⟩ := bind_eq_ok planned
      cases done
      exact trivial
    · cases planned
  · obtain ⟨_, _, planned⟩ := bind_eq_ok planned
    split at planned
    · cases planned
    · obtain ⟨request, _, done⟩ := bind_eq_ok planned
      cases request <;> cases done <;> exact trivial

theorem Session.outcome_of_sides {session : Session} {command : Command} {path text : String}
    {outcome : Outcome} (sides : command.sides? = some (path, text))
    (succeeds : (session.step command).1 = .ok outcome) : outcome.OfAssignment := by
  rw [step_of_sides sides] at succeeds
  cases planned : plan session.names session.defaults path text with
  | ok done =>
      rw [planned] at succeeds
      cases succeeds
      exact plan_outcome planned
  | error error =>
      rw [planned] at succeeds
      cases succeeds

/-- The text that a command has evaluated: the right side of an assignment, or the expression that is
to be shown. -/
def Command.text? : Command → Option String
  | .assign _ right => some (Text.trim right)
  | .line text =>
      match Line.read text with
      | .assignment _ right => some (Text.trim right)
      | .expression shown => some shown
      | _ => none

theorem Command.text_of_sides {command : Command} {path text : String}
    (sides : command.sides? = some (path, text)) : command.text? = some text := by
  cases command with
  | assign left right =>
      cases sides
      rfl
  | line line =>
      rw [sides?] at sides
      rw [text?]
      split at sides <;> cases sides
      rename_i read
      rw [read]

theorem Command.sides_trimmed {command : Command} {path text : String}
    (sides : command.sides? = some (path, text)) : Text.trim text = text := by
  cases command with
  | assign left right =>
      cases sides
      exact Text.trim_trim right
  | line line =>
      rw [sides?] at sides
      split at sides <;> cases sides
      exact Text.trim_trim _

theorem Session.step_shows {session : Session} {command : Command} {image : Image}
    (shows : (session.step command).1 = .ok (.render image)) :
    ∃ text, command.text? = some text ∧ session.compile text = .ok image := by
  cases sides : command.sides? with
  | some both => exact (outcome_of_sides sides shows).elim
  | none =>
      cases command with
      | assign left right => cases sides
      | line text =>
          rcases Action.ends_cases (line_ends session sides) with
            ⟨outcome, after, carried, describes⟩ | ⟨own, after, carried, _⟩
          · rw [step, carried] at shows
            cases shows
            obtain ⟨shown, read, compiled⟩ := describes image rfl
            exact ⟨shown, by rw [Command.text?, read], compiled⟩
          · rw [step, carried] at shows
            cases shows

/-- The names that an assignment with these sides mentions: the one in its path, or those in its
expression. -/
def mentionedNames (path text : String) : List String :=
  match splitPath path with
  | .error _ => []
  | .ok (some (node, _)) => [node]
  | .ok none =>
      match parse text with
      | .ok expression => expression.identifiers
      | .error _ => []

section Agreement

variable {names other : Registry} {defaults : Defaults} {path text : String}

theorem plan_path_agrees
    (bound : ∀ name ∈ mentionedNames path text, other.get? name = names.get? name) :
    planPath other defaults path text = planPath names defaults path text := by
  unfold mentionedNames at bound
  cases split : splitPath path with
  | error error => rw [planPath, planPath, split]; rfl
  | ok place =>
      rw [split] at bound
      rcases place with _ | ⟨node, property⟩
      · have compiled : compile other defaults text = compile names defaults text := by
          cases parsed : parse text with
          | error error => rw [compile, compile, parsed]; rfl
          | ok expression =>
              rw [parsed] at bound
              rw [compile_parsed parsed, compile_parsed parsed]
              exact Expr.describe_agrees rfl bound fun _ => rfl
        rw [plan_path_undotted split, plan_path_undotted split, planName, planName, compiled]
      · have found : other.find node = names.find node := by
          rw [Registry.find, Registry.find, bound node List.mem_cons_self]
        rw [plan_path_dotted split, plan_path_dotted split, planProperty, planProperty, found]

theorem plan_agrees
    (bound : ∀ name ∈ mentionedNames path text, other.get? name = names.get? name) :
    plan other defaults path text = plan names defaults path text := by
  rw [plan, plan, plan_path_agrees bound]

end Agreement

section Changes

variable {names : Registry} {defaults : Defaults} {path text : String} {outcome : Outcome}
  {change : Change}

theorem plan_name_change {name : String}
    (planned : planName names defaults name text = .ok (outcome, some change)) :
    ∃ image, compile names defaults text = .ok image ∧ outcome = .registered name ∧
      change = .register name image := by
  unfold planName at planned
  split at planned
  · obtain ⟨image, compiled, done⟩ := bind_eq_ok planned
    cases done
    exact ⟨image, compiled, rfl, rfl⟩
  · cases planned

theorem plan_property_change {name property : String}
    (planned : planProperty names name property text = .ok (outcome, some change)) :
    ∃ image value, names.get? name = some image ∧ outcome = .propertySet name property ∧
      change = .put image property value := by
  obtain ⟨image, found, planned⟩ := bind_eq_ok planned
  split at planned
  · cases planned
  · obtain ⟨request, read, planned⟩ := bind_eq_ok planned
    rcases request with value | entries
    · cases planned
      exact ⟨image, value, Registry.find_eq_ok _ _ _ found, rfl, rfl⟩
    · cases planned

theorem plan_change (planned : plan names defaults path text = .ok (outcome, some change)) :
    (∃ name image, compile names defaults text = .ok image ∧ outcome = .registered name ∧
      change = .register name image) ∨
    ∃ name property image value, names.get? name = some image ∧
      outcome = .propertySet name property ∧ change = .put image property value := by
  unfold plan at planned
  split at planned
  · cases planned
  split at planned
  · cases planned
  obtain ⟨place, split, planned⟩ := bind_eq_ok planned
  rcases place with _ | ⟨name, property⟩
  · exact .inl ⟨path, plan_name_change planned⟩
  · obtain ⟨image, value, change⟩ := plan_property_change planned
    exact .inr ⟨name, property, image, value, change⟩

end Changes

end ImageGraph
