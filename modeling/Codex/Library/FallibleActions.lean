import Mathlib.Data.List.Basic

/-!
# State changes that may fail

An action changes a state and reports success or an error.  A failed action
keeps the changes it made before it failed.  `Meets` is a triple with one
postcondition for success and one for failure; the rules below derive it for a
sequence of actions and for one retry after a recovery step.
-/

namespace Codex.Library.FallibleActions

variable {σ ε : Type*}

/-- A state change that reports success or an error. -/
abbrev Action (σ ε : Type*) := σ → σ × Except ε Unit

variable (first second : Action σ ε)

def andThen : Action σ ε := fun state =>
  match first state with
  | (next, .ok ()) => second next
  | (next, .error error) => (next, .error error)

/--
Run the first action; if it fails, recover and run the second one; if that
fails as well, recover and report its error.  A success is settled.
-/
def withRetry (recover : ε → σ → σ) (settle : σ → σ) : Action σ ε := fun state =>
  match first state with
  | (next, .ok ()) => (settle next, .ok ())
  | (next, .error error) =>
    match second (recover error next) with
    | (last, .ok ()) => (settle last, .ok ())
    | (last, .error error) => (recover error last, .error error)

/--
From a state in `before` the action ends in `done` if it succeeds and in
`failed` if it does not.
-/
structure Meets (before : σ → Prop) (action : Action σ ε)
    (done failed : σ → Prop) : Prop where
  success : ∀ state, before state → (action state).2 = .ok () → done (action state).1
  failure : ∀ state, before state →
    ∀ error, (action state).2 = .error error → failed (action state).1

variable {before middle done failed : σ → Prop} {first second : Action σ ε} {action : Action σ ε}

/-- An action that keeps `failed` in any case, and more if it succeeds. -/
theorem Meets.of_run (run : ∀ state, before state → ∃ next result,
      action state = (next, result) ∧ failed next ∧ (result = .ok () → done next)) :
    Meets before action done failed := by
  constructor
  · intro state start outcome
    obtain ⟨next, result, same, -, succeeds⟩ := run state start
    rw [same] at outcome ⊢
    exact succeeds outcome
  · intro state start error _
    obtain ⟨next, result, same, kept, -⟩ := run state start
    rw [same]
    exact kept

/-- What both postconditions imply holds after the action. -/
theorem Meets.always {kept : σ → Prop}
    (meets : Meets before action done failed) (ofDone : ∀ state, done state → kept state)
    (ofFailed : ∀ state, failed state → kept state)
    {state : σ} (start : before state) : kept (action state).1 := by
  cases result : (action state).2 with
  | ok value => exact ofDone _ (meets.success state start result)
  | error error => exact ofFailed _ (meets.failure state start error result)

theorem Meets.andThen (firstMeets : Meets before first middle failed)
    (secondMeets : Meets middle second done failed) :
    Meets before (andThen first second) done failed := by
  have unfolded : ∀ state, (FallibleActions.andThen first second) state = match (first state).2 with
      | .ok () => second (first state).1
      | .error error => ((first state).1, .error error) := by
    intro state
    unfold FallibleActions.andThen
    rcases first state with ⟨next, _ | ⟨⟨⟩⟩⟩ <;> rfl
  constructor
  · intro state start outcome
    rw [unfolded] at outcome ⊢
    cases result : (first state).2 with
    | ok value =>
      simp only [result] at outcome ⊢
      exact secondMeets.success _ (firstMeets.success state start result) outcome
    | error error => simp [result] at outcome
  · intro state start error outcome
    rw [unfolded] at outcome ⊢
    cases result : (first state).2 with
    | ok value =>
      simp only [result] at outcome ⊢
      exact secondMeets.failure _ (firstMeets.success state start result) error outcome
    | error other => exact firstMeets.failure state start other result

/-- One retry: recovery must lead from failure back to the start. -/
theorem Meets.withRetry {recover : ε → σ → σ} {settle : σ → σ}
    (firstMeets : Meets before first done failed) (secondMeets : Meets before second done failed)
    (recovers : ∀ error state, failed state → before (recover error state))
    (settles : ∀ state, done state → done (settle state)) :
    Meets before (withRetry first second recover settle) done
      before := by
  have unfolded : ∀ state, (FallibleActions.withRetry first second recover settle) state =
        match (first state).2 with
        | .ok () => (settle (first state).1, .ok ())
        | .error error =>
          let retried := second (recover error (first state).1)
          match retried.2 with
          | .ok () => (settle retried.1, .ok ())
          | .error error => (recover error retried.1, .error error) := by
    intro state
    unfold FallibleActions.withRetry
    rcases first state with ⟨next, error | ⟨⟨⟩⟩⟩
    · dsimp only
      rcases second (recover error next) with ⟨last, _ | ⟨⟨⟩⟩⟩ <;> rfl
    · rfl
  constructor
  · intro state start outcome
    rw [unfolded] at outcome ⊢
    cases result : (first state).2 with
    | ok value => exact settles _ (firstMeets.success state start result)
    | error error =>
      have again := recovers error _ (firstMeets.failure state start error result)
      simp only [result] at outcome ⊢
      cases retried : (second (recover error (first state).1)).2 with
      | ok value => exact settles _ (secondMeets.success _ again retried)
      | error other => simp [retried] at outcome
  · intro state start error outcome
    rw [unfolded] at outcome ⊢
    cases result : (first state).2 with
    | ok value => simp [result] at outcome
    | error firstError =>
      have again := recovers firstError _ (firstMeets.failure state start firstError result)
      simp only [result] at outcome ⊢
      cases retried : (second (recover firstError (first state).1)).2 with
      | ok value => simp [retried] at outcome
      | error other => exact recovers other _ (secondMeets.failure _ again other retried)

end Codex.Library.FallibleActions
