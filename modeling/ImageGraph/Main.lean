import ImageGraph.Transcript

/-!
The command line: lines from standard input, answers on standard output and failures on standard
error.
-/

set_option autoImplicit false

namespace ImageGraph

def resolutionVariable : String := "PIXLAB_RESOLUTION"

def respond (session : Session) (line : String) : IO Session := do
  let (result, changed) := session.step (.line line)
  match result with
  | .ok _ => IO.print (changed.answer result)
  | .error error => IO.eprintln error.message
  (← IO.getStdout).flush
  pure changed

partial def serve (input : IO.FS.Stream) (session : Session) : IO Unit := do
  let text ← input.getLine
  if text.isEmpty then return
  serve input (← (linesOf text).foldlM respond session)

end ImageGraph

def main : IO Unit := do
  let resolution ← IO.getEnv ImageGraph.resolutionVariable
  ImageGraph.serve (← IO.getStdin) (ImageGraph.Session.configured resolution)
