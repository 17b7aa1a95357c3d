import ImageGraph.Assignment

/-!
Sessions: named images that commands build, change and show. A command ends with its outcome or with
an error. What it changes takes effect at once, so whatever has been changed before an error would
stay changed.
-/

set_option autoImplicit false

namespace ImageGraph

/-- The named images of a session, the settings of all that they are made from, and the resolutions
that the session is configured with. -/
structure Session where
  defaults : Defaults
  store : Store
  names : Registry
  deriving DecidableEq

/-- A command: a line to be read, or an assignment whose sides are given. -/
inductive Command where
  | line (text : String)
  | assign (left right : String)
  deriving DecidableEq, Repr

inductive Outcome where
  | nothing
  | registered (name : String)
  | propertySet (name property : String)
  | listing (entries : List String)
  | render (image : Image)
  deriving DecidableEq

inductive Assigned where
  | set (name property : String) (value : Property.Value)
  | cases (entries : List String)

inductive Line where
  | nothing
  | assignment (left right : String)
  | listing (name : String)
  | expression (text : String)
  deriving DecidableEq, Repr

/-- Blank lines and those that begin with `#` ask for nothing. A line with an equals sign assigns, one
that ends in a dot lists properties, and any other is an expression to be shown. -/
def Line.read (text : String) : Line :=
  let line := Text.trim text
  if line.isEmpty ∨ line.toList.head? = some '#' then .nothing
  else
    match Text.cut '=' line with
    | some (left, right) => .assignment left right
    | none =>
        match Text.dropFinal '.' line with
        | some name => .listing (Text.trim name)
        | none => .expression line

def isAssignment (text : String) : Bool := text.toList.contains '='

/-- Names have a letter or `_` first and then only letters, digits and `_`. -/
def isIdentifier (name : String) : Bool :=
  match name.toList with
  | [] => false
  | first :: rest => Expr.Token.isWordStart first && rest.all Expr.Token.isWordChar

/-- A command under way in a session. The session that it leaves behind is that of its last change,
also when it ends with an error. -/
abbrev Action (Result : Type) := ExceptT Error (StateM Session) Result

namespace Session

def start (defaults : Defaults) : Session := ⟨defaults, #[], []⟩

/-- Carry out an action: its result or error, and the session that it leaves behind. -/
def carryOut {Result : Type} (session : Session) (action : Action Result) :
    Except Error Result × Session :=
  action.run.run session

def compile (session : Session) (text : String) : Except Error Image :=
  ImageGraph.compile session.names session.defaults text

def register (session : Session) (name : String) (image : Image) : Session :=
  let (image, store) := image.settle session.store
  { session with store, names := session.names.insert name image }

theorem get_register (session : Session) (name other : String) (image : Image) :
    (session.register name image).names.get? other =
      if other = name then some (image.settle session.store).1 else session.names.get? other :=
  Registry.get_insert session.names name other _

def replaceSettings (session : Session) (image : Image) (settings : Settings) : Session :=
  match image.address? with
  | some address => { session with store := session.store.set! address settings }
  | none => session

def listProperties (session : Session) (name : String) : Except Error (List String) :=
  (session.names.find name).map fun image => image.propertyNames.map Text.dotted

end Session

namespace Action

def setProperty (image : Image) (property : String) (value : Property.Value) : Action Unit := do
  let session ← get
  let settings ←
    Settings.set image.kind.properties (image.settings session.store) property value
  set (session.replaceSettings image settings)

/-- Assign to a property of a named image. A path without a dot is no property. -/
def assignProperty (path value : String) : Action (Option Assigned) := do
  match ← splitPath path with
  | none => pure none
  | some (name, propertyName) =>
      let image ← (← get).names.find name
      match Settings.property? image.kind.properties propertyName with
      | none => throw (.propertyNotFound name propertyName image.propertyNames)
      | some property =>
          match ← readRequest property value with
          | .cases entries => pure (some (.cases entries))
          | .store value =>
              setProperty image propertyName value
              pure (some (.set name propertyName value))

def assignName (name value : String) : Action Outcome := do
  if isIdentifier name then
    let image ← (← get).compile value
    modify fun session => session.register name image
    pure (.registered name)
  else throw (.invalidName name)

def assign (left right : String) : Action Outcome := do
  let name := Text.trim left
  let value := Text.trim right
  if name.isEmpty then throw .emptyName
  else if value.isEmpty then throw (.emptyValue name)
  else
    match ← assignProperty name value with
    | some (.set name property _) => pure (.propertySet name property)
    | some (.cases entries) => pure (.listing entries)
    | none => assignName name value

def execute (text : String) : Action Outcome :=
  match Line.read text with
  | .nothing => pure .nothing
  | .assignment left right => assign left right
  | .listing name => do pure (.listing (← (← get).listProperties name))
  | .expression text => do pure (.render (← (← get).compile text))

def perform : Command → Action Outcome
  | .line text => execute text
  | .assign left right => assign left right

end Action

namespace Session

/-- Carry out a command and go on with the session that it leaves behind, whether it failed or
not. -/
def step (session : Session) (command : Command) : Except Error Outcome × Session :=
  session.carryOut (Action.perform command)

def run (session : Session) (commands : List Command) : Session :=
  commands.foldl (fun current command => (current.step command).2) session

end Session

end ImageGraph
