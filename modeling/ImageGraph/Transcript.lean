import ImageGraph.Session
import ImageGraph.Image.Outline

/-!
Transcripts: what a session writes in answer to its lines.
-/

set_option autoImplicit false

namespace ImageGraph

def Outcome.text (session : Session) : Outcome → String
  | nothing => ""
  | registered name =>
      match session.names.get? name with
      | some image => s!"{name} = {image.outline session.store}"
      | none => ""
  | propertySet name property =>
      match (session.names.get? name).bind fun image => image.value? session.store property with
      | some value => s!"{name}.{property} = {value.text}\n"
      | none => ""
  | listing entries => String.join (entries.map fun entry => entry ++ "\n")
  | render image => image.outline session.store

namespace Session

/-- What is written for the result of a line, once the session has changed. Nothing is written for a
line that fails. -/
def answer (changed : Session) : Except Error Outcome → String
  | .ok outcome => outcome.text changed
  | .error _ => ""

def transcript (session : Session) : List String → String × Session
  | [] => ("", session)
  | line :: lines =>
      let (result, changed) := session.step (.line line)
      let (others, final) := changed.transcript lines
      (changed.answer result ++ others, final)

/-- A session for a configured default resolution. A text that is none is ignored. -/
def configured (resolution : Option String) : Session :=
  match resolution.map Resolution.ofText with
  | some (.ok generated) => start { Defaults.standard with generated }
  | _ => start .standard

end Session

/-- The lines of a text. Each ends with a line feed, which the last one may lack, and a carriage
return before it is dropped. -/
def linesOf (text : String) : List String :=
  (splitLines text.toList).map fun line => String.ofList (dropReturn line)
where
  splitLines : List Char → List (List Char)
    | [] => []
    | '\n' :: rest => ['\n'] :: splitLines rest
    | char :: rest =>
        match splitLines rest with
        | [] => [[char]]
        | line :: lines => (char :: line) :: lines
  dropReturn (line : List Char) : List Char :=
    match line.reverse with
    | '\n' :: '\r' :: before => before.reverse
    | '\n' :: before => before.reverse
    | _ => line

def transcriptOf (resolution : Option String) (commands : String) : String :=
  ((Session.configured resolution).transcript (linesOf commands)).1

end ImageGraph
