import Codex.Turn.CallLedger
import Codex.Turn.RunTurn

/-!
# A detected loop does not end the turn

`handle_output_item_done` says when a tool call completes a loop, but
`try_run_sampling_request` reports every request as free of loops.  So the turn
loop never breaks a loop and never resets the detector: what a looping model
should meet happens in no run in which it loops.
-/

namespace Codex.Turn.LoopBreak

open Protocol.Models Sse.Messages LoopDetection ToolCalls Sampling CallLedger List
  RunTurn

variable (env : TurnEnvironment)

/-! ## No request reports a loop -/

/-- An outcome that does not report a loop. -/
def Unreported (outcome : Except CodexErr SamplingRequestResult) : Prop :=
  ∀ result, outcome = .ok result → result.loopDetected = false

variable {outcome : Except CodexErr SamplingRequestResult} {env} in
theorem onItemDone_unreported {mail : Bool} {state last : SamplingState}
    {item : ResponseItem} {prev : Option Items.TurnItem}
    (stopped : onItemDone env mail state item prev =
      .stop last outcome) : Unreported outcome := by
  unfold onItemDone at stopped
  split at stopped
  · cases stopped
    nofun
  · simp only at stopped
    split at stopped
    · cases stopped
      rintro _ ⟨⟩
      rfl
    · cases stopped

variable {env} in
theorem onPoll_unreported {state last : SamplingState} {poll : Poll}
    (stopped : onPoll env state poll = .stop last outcome) : Unreported outcome := by
  cases poll with
  | event event mail =>
    cases event with
    | outputItemDone item =>
      simp only [onPoll, onResponseEvent, onOutputItemDone] at stopped
      split at stopped
      · split at stopped
        · cases stopped
        · exact onItemDone_unreported stopped
      · exact onItemDone_unreported stopped
    | completed =>
      cases stopped
      rintro _ ⟨⟩
      rfl
    | _ => cases stopped
  | failed | cancelled =>
    cases stopped
    nofun
  | hookContexts contexts => cases stopped

theorem sampleLoop_unreported (polls : List Poll) (state : SamplingState) :
    Unreported (sampleLoop env polls state).2 := by
  induction polls generalizing state with
  | nil => nofun
  | cons poll polls ih =>
    unfold sampleLoop
    cases outcome : onPoll env state poll with
    | next state => exact ih state
    | stop state result => exact onPoll_unreported outcome

theorem tryRunSamplingRequest_unreported (attempt : Attempt) (session : SessionState) : Unreported
      (tryRunSamplingRequest env attempt session).outcome := by
  unfold tryRunSamplingRequest
  cases attempt.refused with
  | some error => nofun
  | none =>
    simp only
    split
    · nofun
    · exact sampleLoop_unreported env _ _

/-! ## The detector is never reset -/

/-- The detector has recorded some calls and nothing else. -/
def Detects (env : TurnEnvironment) (session next : SessionState)
    (calls : List ToolCall) : Prop :=
  next.detector.toolCallHistory = (calls.map (detected env)).foldl pushBounded
      session.detector.toolCallHistory

variable {env} in
theorem Detects.trans {session next last : SessionState} {calls later : List ToolCall}
    (first : Detects env session next calls)
    (second : Detects env next last later) :
    Detects env session last (calls ++ later) := by
  unfold Detects at *
  rw [second, first, map_append, foldl_append]

theorem drainInFlight_detector (resolve : Nat → Resolution)
    (pos : Nat) (calls : List ToolCall) (session : SessionState) :
    (drainInFlight env resolve pos calls session).detector = session.detector := by
  induction calls generalizing pos session with
  | nil => rfl
  | cons call calls ih =>
    rw [drainInFlight, ih]
    unfold drainOne
    simp only
    split <;> rfl

theorem tryRunSamplingRequest_detects (attempt : Attempt) (session : SessionState) :
    Detects env session (tryRunSamplingRequest env attempt session).session
      (tryRunSamplingRequest env attempt session).calls := by
  unfold tryRunSamplingRequest
  cases attempt.refused with
  | some error => rfl
  | none =>
    obtain ⟨_, records⟩ := sampled_adds env attempt.polls session
    unfold Detects
    simp only [drainInFlight_detector]
    exact records.detector

variable (maxRetries : Nat) (round : Round) (state : TurnState)

theorem runSamplingRequest_spec (trials : List Trial) (retries : Nat) (session : SessionState) :
    let run := runSamplingRequest env maxRetries trials retries session
    Detects env session run.session run.requests.flatten ∧
      ∀ outcome, run.outcome = some outcome → Unreported outcome := by
  induction trials generalizing retries session with
  | nil => exact ⟨rfl, nofun⟩
  | cons trial trials ih =>
    have first : Detects env session _ _ := tryRunSamplingRequest_detects env trial.attempt session
    have unreported : Unreported _ := tryRunSamplingRequest_unreported env trial.attempt session
    unfold runSamplingRequest
    simp only
    split
    next result succeeded =>
      refine ⟨by simpa using first, ?_⟩
      rintro _ ⟨⟩
      exact succeeded ▸ unreported
    · split
      · refine ⟨by simpa using first, ?_⟩
        rintro _ ⟨⟩
        nofun
      · split
        · exact ⟨first.trans (ih 0 _).1, (ih 0 _).2⟩
        · split
          · have later := ih (retries + 1)
            exact ⟨first.trans (later _).1, (later _).2⟩
          · refine ⟨by simpa using first, ?_⟩
            rintro _ ⟨⟩
            nofun

theorem foldl_detector {step : SessionState → InspectedInput → SessionState}
    (keeps : ∀ session input, (step session input).detector = session.detector)
    (inputs : List InspectedInput) (session : SessionState) :
    (inputs.foldl step session).detector = session.detector := by
  induction inputs generalizing session with
  | nil => rfl
  | cons input inputs ih => rw [foldl_cons, ih, keeps]

theorem runHooksAndRecordInputs_detector (session : SessionState) (inputs : List InspectedInput) :
    (runHooksAndRecordInputs env session inputs).1.detector = session.detector := by
  refine foldl_detector ?_ inputs session
  intro session input
  split
  · rfl
  · unfold recordPendingInput
    simp only
    split <;> rfl

theorem stopHooks_detector : (stopHooks env round state).1.session.detector =
      state.session.detector := by
  unfold stopHooks
  split
  · split <;> rfl
  · rfl

theorem finishTurn_detector (lastAgentMessage : Option String) : (finishTurn env round state
      lastAgentMessage).1.session.detector = state.session.detector := by
  unfold finishTurn
  simp only
  generalize (if lastAgentMessage.isNone then
    state.session.consecutiveNullCompletions + 1 else 0) = count
  split
  · rfl
  · exact stopHooks_detector env round { state with
        session := { state.session with consecutiveNullCompletions := count }
        lastAgentMessage := lastAgentMessage }

theorem afterSampling_detector {result : SamplingRequestResult}
    (unreported : result.loopDetected = false) :
    (afterSampling env round state result).1.session.detector = state.session.detector := by
  unfold afterSampling
  simp only [unreported, Bool.false_and, Bool.false_eq_true, if_false]
  split
  · split <;> rfl
  · split
    · rfl
    · exact finishTurn_detector env round
        { state with canDrainPendingInput := true } result.lastAgentMessage

theorem afterFailure_detector (error : CodexErr) :
    (afterFailure env state error).1.session.detector = state.session.detector := by
  unfold afterFailure
  split
  · simp only
    split <;> rfl
  · rfl

/-! ## Whole turns -/

theorem sampleRound_detects :
    Detects env state.session (sampleRound env maxRetries round state).state.session
      (sampleRound env maxRetries round state).requests.flatten := by
  have history {session next : SessionState} (kept : next.detector = session.detector) :
      next.detector.toolCallHistory = session.detector.toolCallHistory :=
    congrArg LoopDetector.toolCallHistory kept
  unfold sampleRound
  split
  · exact history (afterFailure_detector env state _)
  · obtain ⟨requests, unreported⟩ :=
      runSamplingRequest_spec env maxRetries round.trials 0 state.session
    simp only at requests unreported ⊢
    split
    · exact requests
    next result ended =>
      have quiet := unreported _ ended result rfl
      exact (history (afterSampling_detector env round _ quiet)).trans requests
    · exact (history (afterFailure_detector env _ _)).trans requests

theorem runRound_detects :
    Detects env state.session (runRound env maxRetries round state).state.session
      (runRound env maxRetries round state).requests.flatten := by
  unfold runRound
  simp only
  generalize (if state.canDrainPendingInput then round.pending else []) = pending
  have input := runHooksAndRecordInputs_detector env state.session pending
  split
  · exact congrArg LoopDetector.toolCallHistory input
  · have detects := sampleRound_detects env maxRetries round { state with
        session := (runHooksAndRecordInputs env state.session pending).1 }
    unfold Detects at detects
    rwa [input] at detects

theorem runTurn_detects (rounds : List Round) (state : TurnState) :
    Detects env state.session (runTurn env maxRetries rounds state).state.session
      (runTurn env maxRetries rounds state).requests.flatten := by
  induction rounds generalizing state with
  | nil => rfl
  | cons round rounds ih =>
    have first := runRound_detects env maxRetries round state
    unfold runTurn
    simp only
    split
    · rw [flatten_append]
      exact first.trans (ih _)
    · exact first
    · exact first

/-! ## Loops -/

/-- What identifies a call in a loop: its tool and its logged payload. -/
def logged (call : ToolCall) : String × String :=
  (displayName call.toolName, call.payload.logPayload)

variable (earlier : List (String × String))

/-- A call that is the same as those recorded right before it. -/
def CompletesLoop (call : ToolCall) : Prop :=
  defaultToolLoopThreshold - 1 ≤ earlier.length ∧
    ∀ prev ∈ earlier.reverse.take (defaultToolLoopThreshold - 1), prev = logged call

instance (earlier : List (String × String)) (call : ToolCall) :
    Decidable (CompletesLoop earlier call) :=
  inferInstanceAs (Decidable (_ ∧ _))

/-- A request that emits such a call. -/
def EmitsLoop (calls : List ToolCall) : Prop :=
  ∃ before call after, calls = before ++ call :: after ∧
    CompletesLoop (earlier ++ before.map logged) call

/-- The detector after some calls since it was last reset. -/
def detectorAfter : LoopDetector := earlier.foldl
    (fun detector call => (detector.recordToolCall env.hashString call.1 call.2).1)
    .new

/-- A turn that starts after some calls since the last reset. -/
def TurnState.after (state : TurnState) (earlier : List (String × String)) : TurnState :=
  { state with
    session := { state.session with
      detector := detectorAfter env earlier } }

/--
After a request that emits a loop there is no other one: the turn ends there
with the loop-break message recorded and the detector reset.
-/
def LoopsStopped (run : TurnRun) : Prop :=
  ∀ before calls after, run.requests = before ++ calls :: after →
    EmitsLoop (earlier ++ before.flatten.map logged) calls → after = [] ∧ run.ending.isSome ∧
        run.state.session.history.items.getLast? = some loopBreakItem ∧
        run.state.session.detector.toolCallHistory = []

def NoLoops (run : TurnRun) : Prop :=
  ∀ before calls after, run.requests = before ++ calls :: after →
    ¬ EmitsLoop (earlier ++ before.flatten.map logged) calls

theorem foldl_pushBounded_ne_nil (entries calls : List (String × UInt64))
    (some : calls ≠ []) : calls.foldl pushBounded entries ≠ [] := by
  obtain ⟨before, last, rfl⟩ := (eq_nil_or_concat' calls).resolve_left some
  rw [foldl_append]
  simp [pushBounded]

/-- Loops are stopped in just the turns that have none. -/
theorem loops_stopped_iff (maxRetries : Nat) (rounds : List Round)
    (state : TurnState) (earlier : List (String × String)) :
    let run := runTurn env maxRetries rounds
      (TurnState.after env state earlier)
    LoopsStopped earlier run ↔ NoLoops earlier run := by
  intro run
  have detects : Detects env _ run.state.session _ :=
    runTurn_detects env maxRetries rounds (TurnState.after env state earlier)
  constructor
  · intro stopped before calls after split emits
    have reset := (stopped before calls after split emits).2.2.2
    obtain ⟨front, call, back, rfl, -⟩ := emits
    -- The detector still holds the call that completed the loop.
    have called : run.requests.flatten.map (detected env) ≠ [] := by simp [split]
    exact foldl_pushBounded_ne_nil _ _ called (detects.symm.trans reset)
  · intro none before calls after split emits
    exact absurd emits (none before calls after split)

def listing : Attempt where
  refused := none
  polls := [.event (.outputItemDone (.functionCall none "shell" none "ls" "call-1")) false,
      .event (.completed none "response-1" none none) false]
  resolve _ := ⟨[], .finished (.content [.inputText "src"] (some true))⟩
  cancelled := false

/-- A model that repeats one call is asked for the sixth time. -/
theorem repeated_call_not_stopped :
    let run := runTurn plainTurn 0 (List.replicate 6 (.quiet listing))
      (TurnState.after plainTurn (.initial .new true) [])
    run.requests.length = 6 ∧ run.ending = none ∧ ¬ LoopsStopped [] run := by
  intro run
  have requests : run.requests =
      List.replicate 6 [⟨⟨"shell", none⟩, "call-1", .function "ls"⟩] := by
    decide +kernel
  have ending : run.ending = none := by decide +kernel
  refine ⟨by rw [requests]; rfl, ending, fun stopped => ?_⟩
  have running := (stopped (run.requests.take 4) _ _ (by rw [requests]; rfl)
    ⟨[], _, [], rfl, by rw [requests]; decide⟩).2.1
  rw [ending] at running
  cases running

end Codex.Turn.LoopBreak
