import ImageGraph.Proofs.Action

/-!
What a command does to its session. `Session.Effect` lists everything that may come of a command,
and `step_effect` says that nothing else does. It is derived along the text of the commands, from
the place of each error and of each change, so later proofs about commands look at its few cases
only. Conversely `step_of_stores` says that a value which can be stored is stored.
-/

set_option autoImplicit false

namespace ImageGraph

/-- The two sides of a command that assigns, without the blanks at their ends. -/
def Command.sides? : Command → Option (String × String)
  | .assign left right => some (Text.trim left, Text.trim right)
  | .line text =>
      match Line.read text with
      | .assignment left right => some (Text.trim left, Text.trim right)
      | _ => none

/-- A path and a text ask for a value to be stored in a property of a named image. -/
structure Session.Stores (session : Session) (path text name property : String) (image : Image)
    (declared : Property) (value : Property.Value) : Prop where
  path_read : splitPath path = .ok (some (name, property))
  bound : session.names.get? name = some image
  is_declared : Settings.property? image.kind.properties property = some declared
  text_read : readRequest declared text = .ok (.store value)
  fits : value.fits declared.kind = true

/-- Everything that may come of a command: its result and the session that it leaves behind. -/
inductive Session.Effect (session : Session) (command : Command) :
    Except Error Outcome → Session → Prop where
  | failed (error : Error) : Effect session command (.error error) session
  | nothing : Effect session command (.ok .nothing) session
  | listed (entries : List String) : Effect session command (.ok (.listing entries)) session
  | shown {text : String} {image : Image} (compiled : session.compile text = .ok image) :
      Effect session command (.ok (.render image)) session
  | named {name text : String} {image : Image} (sides : command.sides? = some (name, text))
      (identifier : isIdentifier name = true) (compiled : session.compile text = .ok image) :
      Effect session command (.ok (.registered name)) (session.register name image)
  | changed {path text name property : String} {image : Image} {declared : Property}
      {value : Property.Value} (sides : command.sides? = some (path, text))
      (stores : session.Stores path text name property image declared value) :
      Effect session command (.ok (.propertySet name property))
        (session.replaceSettings image
          (Settings.put image.kind.properties (image.settings session.store) property value))

namespace Settings

theorem set_eq_ok (properties : List Property) (settings changed : Settings) (name : String)
    (value : Property.Value) (succeeds : set properties settings name value = .ok changed) :
    ∃ declared, property? properties name = some declared ∧ value.fits declared.kind = true ∧
      changed = put properties settings name value := by
  unfold set at succeeds
  split at succeeds
  · cases succeeds
  · rename_i declared found
    split at succeeds
    · rename_i fits
      cases succeeds
      exact ⟨declared, found, fits, rfl⟩
    · cases succeeds

end Settings

theorem Registry.find_eq_ok (registry : Registry) (name : String) (image : Image)
    (found : registry.find name = .ok image) : registry.get? name = some image := by
  unfold find at found
  split at found
  · rename_i present bound
    cases found
    exact bound
  · cases found

namespace Action

variable {session : Session}

theorem ends_set_property (image : Image) (property : String) (value : Property.Value) :
    Ends session (setProperty image property value)
      (fun _ after => ∃ declared,
        Settings.property? image.kind.properties property = some declared ∧
        value.fits declared.kind = true ∧
        after = session.replaceSettings image
          (Settings.put image.kind.properties (image.settings session.store) property value))
      (fun _ after => after = session) := by
  refine ends_get_bind (ends_lift_bind ?_ fun _ _ => rfl)
  intro settings replaced
  obtain ⟨declared, found, fits, rfl⟩ := Settings.set_eq_ok _ _ _ _ _ replaced
  exact ends_set ⟨declared, found, fits, rfl⟩

/-- What is known when an assignment to a property succeeds. -/
def AssignsProperty (session : Session) (path text : String) :
    Option Assigned → Session → Prop
  | none, after => after = session ∧ splitPath path = .ok none
  | some (.cases _), after => after = session
  | some (.set name property value), after =>
      ∃ image declared, session.Stores path text name property image declared value ∧
        after = session.replaceSettings image
          (Settings.put image.kind.properties (image.settings session.store) property value)

theorem ends_assign_property (path text : String) :
    Ends session (assignProperty path text) (AssignsProperty session path text)
      (fun _ after => after = session) := by
  refine ends_lift_bind ?_ fun _ _ => rfl
  intro path split
  rcases path with _ | ⟨name, property⟩
  · exact ends_pure ⟨rfl, split⟩
  refine ends_get_bind (ends_lift_bind ?_ fun _ _ => rfl)
  intro image found
  have bound := Registry.find_eq_ok _ _ _ found
  split
  · exact ends_throw rfl
  rename_i declared isDeclared
  refine ends_lift_bind ?_ fun _ _ => rfl
  intro request read
  rcases request with value | entries
  · apply ends_bind (ends_set_property image property value)
    intro _ after replaced
    obtain ⟨same, found, fits, rfl⟩ := replaced
    obtain rfl : declared = same := Option.some.inj (isDeclared.symm.trans found)
    exact ends_pure ⟨image, declared, ⟨split, bound, isDeclared, read, fits⟩, rfl⟩
  · exact ends_pure rfl

theorem ends_assign_name {command : Command} {name text : String}
    (sides : command.sides? = some (name, text)) :
    Ends session (assignName name text)
      (fun outcome after => session.Effect command (.ok outcome) after)
      (fun _ after => after = session) := by
  unfold assignName
  split
  · rename_i identifier
    refine ends_get_bind (ends_lift_bind ?_ fun _ _ => rfl)
    intro image compiled
    exact ends_modify_bind (ends_pure (.named sides identifier compiled))
  · exact ends_throw rfl

theorem ends_assign {command : Command} {left right : String}
    (sides : command.sides? = some (Text.trim left, Text.trim right)) :
    Ends session (assign left right)
      (fun outcome after => session.Effect command (.ok outcome) after)
      (fun _ after => after = session) := by
  unfold assign
  simp only
  split
  · exact ends_throw rfl
  split
  · exact ends_throw rfl
  apply ends_bind (ends_assign_property _ _)
  intro done after assigned
  rcases done with _ | name | entries
  · obtain ⟨rfl, _⟩ := assigned
    exact ends_assign_name sides
  · obtain ⟨image, declared, stores, rfl⟩ := assigned
    exact ends_pure (.changed sides stores)
  · obtain rfl := assigned
    exact ends_pure (.listed entries)

theorem ends_execute (text : String) :
    Ends session (execute text)
      (fun outcome after => session.Effect (.line text) (.ok outcome) after)
      (fun _ after => after = session) := by
  unfold execute
  split
  · exact ends_pure .nothing
  · rename_i left right read
    have sides : Command.sides? (.line text) = some (Text.trim left, Text.trim right) := by
      simp only [Command.sides?, read]
    exact ends_assign sides
  · refine ends_get_bind (ends_lift_bind ?_ fun _ _ => rfl)
    intro entries _
    exact ends_pure (.listed entries)
  · refine ends_get_bind (ends_lift_bind ?_ fun _ _ => rfl)
    intro image compiled
    exact ends_pure (.shown compiled)

theorem ends_perform (session : Session) (command : Command) :
    Ends session (perform command)
      (fun outcome after => session.Effect command (.ok outcome) after)
      (fun _ after => after = session) := by
  cases command with
  | line text => exact ends_execute text
  | assign left right =>
      have sides : Command.sides? (.assign left right) = some (Text.trim left, Text.trim right) :=
        rfl
      rw [perform]
      exact ends_assign sides

end Action

namespace Session

theorem step_effect (session : Session) (command : Command) :
    session.Effect command (session.step command).1 (session.step command).2 := by
  rcases Action.ends_cases (Action.ends_perform session command) with
    ⟨outcome, after, carried, effect⟩ | ⟨error, after, carried, rfl⟩
  · rw [step, carried]
    exact effect
  · rw [step, carried]
    exact .failed error

end Session

namespace Action

variable {session : Session} {path text name property : String} {image : Image}
  {declared : Property} {value : Property.Value} {fails : Error → Session → Prop}

theorem ends_set_declared
    (found : Settings.property? image.kind.properties property = some declared)
    (fits : value.fits declared.kind = true) :
    Ends session (setProperty image property value)
      (fun _ after => after = session.replaceSettings image
        (Settings.put image.kind.properties (image.settings session.store) property value))
      fails := by
  have replaced : Settings.set image.kind.properties (image.settings session.store) property value =
      .ok (Settings.put image.kind.properties (image.settings session.store) property value) := by
    simp only [Settings.set, found, fits, if_true]
  exact ends_get_bind (ends_lift_ok_bind replaced (ends_set rfl))

theorem ends_assign_property_of_stores
    (stores : session.Stores path text name property image declared value) :
    Ends session (assignProperty path text)
      (fun done after => done = some (.set name property value) ∧
        after = session.replaceSettings image
          (Settings.put image.kind.properties (image.settings session.store) property value))
      fails := by
  have found : session.names.find name = .ok image := by
    simp only [Registry.find, stores.bound]
  apply ends_lift_ok_bind stores.path_read
  apply ends_get_bind
  apply ends_lift_ok_bind found
  rw [stores.is_declared]
  apply ends_lift_ok_bind stores.text_read
  apply ends_bind (ends_set_declared stores.is_declared stores.fits)
  intro _ after replaced
  exact ends_pure ⟨rfl, replaced⟩

theorem ends_assign_of_stores {left right : String} (pathBegun : (Text.trim left).isEmpty = false)
    (textBegun : (Text.trim right).isEmpty = false)
    (stores : session.Stores (Text.trim left) (Text.trim right) name property image declared value) :
    Ends session (assign left right)
      (fun outcome after => (Except.ok outcome, after) =
        ((Except.ok (.propertySet name property), session.replaceSettings image
          (Settings.put image.kind.properties (image.settings session.store) property value)) :
            Except Error Outcome × Session))
      fails := by
  simp only [assign, pathBegun, textBegun, Bool.false_eq_true, if_false]
  apply ends_bind (ends_assign_property_of_stores stores)
  intro done after assigned
  obtain ⟨rfl, rfl⟩ := assigned
  exact ends_pure rfl

end Action

namespace Session

theorem step_of_ends {session : Session} {command : Command} {target : Except Error Outcome × Session}
    (ends : Action.Ends session (Action.perform command)
      (fun outcome after => (.ok outcome, after) = target)
      (fun error after => (.error error, after) = target)) : session.step command = target := by
  rcases Action.ends_cases ends with ⟨_, _, carried, isTarget⟩ | ⟨_, _, carried, isTarget⟩
  · exact carried.trans isTarget
  · exact carried.trans isTarget

theorem perform_of_sides {command : Command} {path text : String}
    (sides : command.sides? = some (path, text)) :
    ∃ left right, Text.trim left = path ∧ Text.trim right = text ∧
      Action.perform command = Action.assign left right := by
  cases command with
  | line line =>
      simp only [Command.sides?] at sides
      split at sides
      · rename_i left right read
        simp only [Option.some.injEq, Prod.mk.injEq] at sides
        exact ⟨left, right, sides.1, sides.2, by rw [Action.perform, Action.execute, read]⟩
      · cases sides
  | assign left right =>
      simp only [Command.sides?, Option.some.injEq, Prod.mk.injEq] at sides
      exact ⟨left, right, sides.1, sides.2, rfl⟩

theorem step_of_stores {session : Session} {command : Command} {path text name property : String}
    {image : Image} {declared : Property} {value : Property.Value}
    (sides : command.sides? = some (path, text)) (pathBegun : path.isEmpty = false)
    (textBegun : text.isEmpty = false)
    (stores : session.Stores path text name property image declared value) :
    session.step command =
      (.ok (.propertySet name property), session.replaceSettings image
        (Settings.put image.kind.properties (image.settings session.store) property value)) := by
  obtain ⟨left, right, rfl, rfl, assigns⟩ := perform_of_sides sides
  apply step_of_ends
  rw [assigns]
  exact Action.ends_assign_of_stores pathBegun textBegun stores

end Session

end ImageGraph
