import ImageGraph.Session

/-!
Assertions about actions. An assertion speaks of both ends of an action, since an action that fails
leaves a session behind as well. There is one rule for each way in which actions are composed, so
what a command does is derived along its text and no rule ever runs it.
-/

set_option autoImplicit false

namespace ImageGraph.Action

variable {First Result : Type}

/-- From this session the action ends in one of two ways: with a result and a session of which
`succeeds` holds, or with an error and a session of which `fails` holds. -/
@[irreducible] def Ends (session : Session) (action : Action Result) (succeeds : Result → Session → Prop)
    (fails : Error → Session → Prop) : Prop :=
  match session.carryOut action with
  | (.ok result, after) => succeeds result after
  | (.error error, after) => fails error after

theorem carry_out_bind (session : Session) (first : Action First)
    (next : First → Action Result) :
    session.carryOut (first >>= next) =
      match session.carryOut first with
      | (.ok value, after) => after.carryOut (next value)
      | (.error error, after) => (.error error, after) := by
  simp only [Session.carryOut, ExceptT.run_bind, StateT.run_bind]
  rcases action : StateT.run (ExceptT.run first) session with ⟨result, after⟩
  cases result <;> rfl

section Rules

variable {session : Session} {succeeds : Result → Session → Prop}
  {fails : Error → Session → Prop}

theorem ends_cases {action : Action Result} (ends : Ends session action succeeds fails) :
    (∃ result after, session.carryOut action = (.ok result, after) ∧ succeeds result after) ∨
      ∃ error after, session.carryOut action = (.error error, after) ∧ fails error after := by
  unfold Ends at ends
  rcases carried : session.carryOut action with ⟨result, after⟩
  rw [carried] at ends
  cases result with
  | ok result => exact .inl ⟨result, after, rfl, ends⟩
  | error error => exact .inr ⟨error, after, rfl, ends⟩

theorem ends_pure {result : Result} (holds : succeeds result session) :
    Ends session (pure result) succeeds fails := by
  unfold Ends
  exact holds

theorem ends_throw {error : Error} (holds : fails error session) :
    Ends session (throw error) succeeds fails := by
  unfold Ends
  exact holds

theorem ends_set {changed : Session} {succeeds : PUnit → Session → Prop}
    (holds : succeeds ⟨⟩ changed) : Ends session (set changed) succeeds fails := by
  unfold Ends
  exact holds

/-- The second action starts from the session that the first one leaves behind, if it starts at
all. -/
theorem ends_bind {first : Action First} {next : First → Action Result}
    {between : First → Session → Prop} (begins : Ends session first between fails)
    (continues : ∀ value after, between value after → Ends after (next value) succeeds fails) :
    Ends session (first >>= next) succeeds fails := by
  unfold Ends at begins ⊢
  rw [carry_out_bind]
  rcases carried : session.carryOut first with ⟨result, after⟩
  rw [carried] at begins
  cases result with
  | ok value =>
      have ends := continues value after begins
      unfold Ends at ends
      exact ends
  | error error => exact begins

theorem ends_get_bind {next : Session → Action Result}
    (continues : Ends session (next session) succeeds fails) :
    Ends session (get >>= next) succeeds fails := by
  unfold Ends at continues ⊢
  exact continues

theorem ends_modify_bind {change : Session → Session} {next : PUnit → Action Result}
    (continues : Ends (change session) (next ⟨⟩) succeeds fails) :
    Ends session (modify change >>= next) succeeds fails := by
  unfold Ends at continues ⊢
  exact continues

theorem ends_lift_bind {source : Except Error First} {next : First → Action Result}
    (continues : ∀ value, source = .ok value → Ends session (next value) succeeds fails)
    (stops : ∀ error, source = .error error → fails error session) :
    Ends session (liftM source >>= next) succeeds fails := by
  cases computed : source with
  | ok value =>
      have ends := continues value computed
      unfold Ends at ends ⊢
      exact ends
  | error error =>
      unfold Ends
      exact stops error computed

theorem ends_lift_ok_bind {source : Except Error First} {value : First}
    {next : First → Action Result} (computed : source = .ok value)
    (continues : Ends session (next value) succeeds fails) :
    Ends session (liftM source >>= next) succeeds fails := by
  refine ends_lift_bind ?_ ?_
  · intro other isOther
    obtain rfl := Except.ok.inj (computed.symm.trans isOther)
    exact continues
  · intro error failed
    cases computed.symm.trans failed

end Rules

end ImageGraph.Action
