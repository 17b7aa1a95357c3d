import ImageGraph.Proofs.Effect
import ImageGraph.Transcript

/-!
Scripts with lines left out. Only a line that registers an image or sets a property has any effect on
those behind it. Any other line can be deleted, and nothing but its own answer is missing from the
transcript; a line that fails has no answer.
-/

set_option autoImplicit false

namespace ImageGraph

/-- Whether a line with this result has done something to its session. -/
def isChange : Except Error Outcome → Bool
  | .ok (.registered _) | .ok (.propertySet _ _) => true
  | _ => false

namespace Session

def printed (session : Session) (line : String) : String :=
  (session.step (.line line)).2.answer (session.step (.line line)).1

/-- The lines of a script that register an image or set a property. -/
def changesOf (session : Session) : List String → List String
  | [] => []
  | line :: lines =>
      let (result, changed) := session.step (.line line)
      if isChange result then line :: changed.changesOf lines else changed.changesOf lines

variable {session : Session} {line : String}

theorem step_kept {command : Command} (idle : isChange (session.step command).1 = false) :
    (session.step command).2 = session := by
  have effect := session.step_effect command
  generalize (session.step command).1 = result, (session.step command).2 = after at effect idle ⊢
  cases effect with
  | named => cases idle
  | changed => cases idle
  | _ => rfl

theorem transcript_cons (session : Session) (line : String) (lines : List String) :
    session.transcript (line :: lines) =
      (session.printed line ++ ((session.step (.line line)).2.transcript lines).1,
        ((session.step (.line line)).2.transcript lines).2) := by
  rcases stepped : session.step (.line line) with ⟨result, changed⟩
  simp only [transcript, printed, stepped]

theorem transcript_append (session : Session) (before after : List String) :
    session.transcript (before ++ after) =
      ((session.transcript before).1 ++ ((session.transcript before).2.transcript after).1,
        ((session.transcript before).2.transcript after).2) := by
  induction before generalizing session with
  | nil => simp [transcript]
  | cons line before induction =>
      rw [List.cons_append, transcript_cons, induction, transcript_cons, String.append_assoc]

theorem transcript_idle (idle : isChange (session.step (.line line)).1 = false)
    (lines : List String) :
    session.transcript (line :: lines) =
      (session.printed line ++ (session.transcript lines).1, (session.transcript lines).2) := by
  rw [transcript_cons, step_kept idle]

theorem changes_of_cons (session : Session) (line : String) (lines : List String) :
    session.changesOf (line :: lines) =
      if isChange (session.step (.line line)).1 then
        line :: (session.step (.line line)).2.changesOf lines
      else (session.step (.line line)).2.changesOf lines := by
  rcases stepped : session.step (.line line) with ⟨result, changed⟩
  simp only [changesOf, stepped]

theorem transcript_of_changes (session : Session) (lines : List String) :
    (session.transcript (session.changesOf lines)).2 = (session.transcript lines).2 := by
  induction lines generalizing session with
  | nil => rfl
  | cons line lines induction =>
      rw [changes_of_cons]
      cases change : isChange (session.step (.line line)).1 with
      | true =>
          rw [if_pos rfl, transcript_cons, transcript_cons]
          exact induction (session.step (.line line)).2
      | false =>
          rw [if_neg Bool.false_ne_true, step_kept change, transcript_idle change]
          exact induction session

/-- A line that fails can be deleted and nothing is different. Of a line that has done nothing but show
or list something, only its own answer is missing. What the lines that have changed something lead to
is what the whole script leads to. -/
theorem deletion_of_lines (resolution : Option String) :
    let first : Session := configured resolution
    (∀ before line after,
      let reached := (first.transcript before).2
      (∀ error, (reached.step (.line line)).1 = .error error →
        first.transcript (before ++ after) = first.transcript (before ++ line :: after)) ∧
      ∀ outcome, (reached.step (.line line)).1 = .ok outcome → isChange (.ok outcome) = false →
        first.transcript (before ++ line :: after) =
            ((first.transcript before).1 ++ reached.printed line ++ (reached.transcript after).1,
              (reached.transcript after).2) ∧
          first.transcript (before ++ after) =
            ((first.transcript before).1 ++ (reached.transcript after).1,
              (reached.transcript after).2)) ∧
    ∀ lines, (first.transcript (first.changesOf lines)).2 = (first.transcript lines).2 := by
  intro first
  refine ⟨?_, transcript_of_changes first⟩
  intro before line after reached
  have whole (idle : isChange (reached.step (.line line)).1 = false) :
      first.transcript (before ++ line :: after) =
        ((first.transcript before).1 ++ reached.printed line ++ (reached.transcript after).1,
          (reached.transcript after).2) := by
    rw [transcript_append, transcript_idle idle, String.append_assoc]
  constructor
  · intro error failed
    have silent : reached.printed line = "" := by
      rw [printed, failed]
      rfl
    rw [whole (by rw [failed]; rfl), silent, String.append_empty, transcript_append]
  · intro outcome succeeds idle
    exact ⟨whole (by rw [succeeds]; exact idle), transcript_append first before after⟩

/-- An image that is not there cannot be named, and what `x` is shown as can be left out. -/
theorem failed_and_shown_lines_deleted :
    let first := configured (some "8x8")
    let reached := (first.transcript ["x = noise(default)"]).2
    (reached.step (.line "y = z")).1 = .error (.imageNotFound "z") ∧
      first.transcript ["x = noise(default)", "x.scale = 2"] =
        first.transcript ["x = noise(default)", "y = z", "x.scale = 2"] ∧
      (reached.step (.line "x")).1 = .ok (.render (.generator (.stored 0) .noise ⟨8, 8⟩)) ∧
      first.transcript ["x = noise(default)", "x", "x.scale = 2"] =
        ((first.transcript ["x = noise(default)"]).1 ++ reached.printed "x" ++
          (reached.transcript ["x.scale = 2"]).1, (reached.transcript ["x.scale = 2"]).2) := by
  have fails : (((configured (some "8x8")).transcript ["x = noise(default)"]).2.step
      (.line "y = z")).1 = .error (.imageNotFound "z") := by
    decide +kernel
  have shows : (((configured (some "8x8")).transcript ["x = noise(default)"]).2.step
      (.line "x")).1 = .ok (.render (.generator (.stored 0) .noise ⟨8, 8⟩)) := by
    decide +kernel
  have deletes := (deletion_of_lines (some "8x8")).1 ["x = noise(default)"]
  exact ⟨fails, (deletes "y = z" ["x.scale = 2"]).1 _ fails, shows,
    ((deletes "x" ["x.scale = 2"]).2 _ shows rfl).1⟩

end Session

end ImageGraph
