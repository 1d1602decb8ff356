import Codex.Turn.Sampling

/-!
# A turn

The model of `run_sampling_request` and of the loop of `run_turn` in
`core/src/session/turn.rs`.  A sampling request is tried again when its stream
fails, and the turn makes one request after the other while the model or the
user has more to say.
-/

namespace Codex.Turn.RunTurn

open Protocol.Models Context.ContextHistory Items LoopDetection ToolCalls
  Sampling

/-! ## Input -/

/-- `TurnInput`; user input comes with the message it is converted to. -/
inductive TurnInput where
  | userInput (content : List UserInput) (msg : ResponseItem)
  | responseItem (item : ResponseItem)
deriving DecidableEq

/-- A pending input with what its hooks say. -/
structure InspectedInput where
  input : TurnInput
  shouldStop : Bool
  additionalContexts : List String
deriving DecidableEq

variable (env : TurnEnvironment) (session : SessionState)

def recordPendingInput (input : InspectedInput) : SessionState :=
  let session :=
    match input.input with
    | .userInput content msg =>
      let session := session.record env [msg]
      let (id, drawn) := env.fresh.choose session.drawnIds none
      let item := TurnItem.userMessage id content
      { session with drawnIds := drawn }.send [.itemStarted item, .itemCompleted item]
    | .responseItem item => session.record env [item]
  session.recordAdditionalContexts env input.additionalContexts

def TurnInput.isUserInput : TurnInput → Bool
  | .userInput content _ => !content.isEmpty
  | .responseItem _ => false

def runHooksAndRecordInputs (inputs : List InspectedInput) : SessionState × Bool :=
  let session := inputs.foldl (fun session input =>
    if input.shouldStop then session.recordAdditionalContexts env input.additionalContexts
    else recordPendingInput env session input) session
  (session, inputs.any InspectedInput.shouldStop && !(inputs.any fun input =>
        !input.shouldStop && input.input.isUserInput))

/-! ## A sampling request with retries -/

/-- An attempt, and whether a fallback transport is left after it. -/
structure Trial where
  attempt : Attempt
  fallback : Bool

/--
What the attempts of a request leave: the calls that each dispatched, and the
outcome unless there was to be another attempt.
-/
structure RequestRun where
  session : SessionState
  requests : List (List ToolCall)
  outcome : Option (Except CodexErr SamplingRequestResult)

/--
The loop of `run_sampling_request`, with the decision of
`handle_retryable_response_stream_error`.
-/
def runSamplingRequest (env : TurnEnvironment) (maxRetries : Nat) :
    List Trial → Nat → SessionState → RequestRun
  | [], _, session => ⟨session, [], none⟩
  | trial :: trials, retries, session =>
    let run := tryRunSamplingRequest env trial.attempt session
    let again := fun retries =>
      let rest := runSamplingRequest env maxRetries trials retries
        run.session
      { rest with requests := run.calls :: rest.requests }
    match run.outcome with
    | .ok result => ⟨run.session, [run.calls], some (.ok result)⟩
    | .error error =>
      if !error.isRetryable then ⟨run.session, [run.calls], some (.error error)⟩
      else if maxRetries ≤ retries && trial.fallback then again 0
      else if retries < maxRetries then again (retries + 1)
      else ⟨run.session, [run.calls], some (.error error)⟩

/-! ## Rounds -/

/-- What the stop hooks say, with the prompt that they continue with. -/
structure StopOutcome where
  shouldBlock : Bool
  shouldStop : Bool
  prompt : Option ResponseItem
deriving DecidableEq

structure Round where
  pending : List InspectedInput
  /-- The error of `built_tools`, if there is one. -/
  toolsError : Option CodexErr
  trials : List Trial
  hasPendingInput : Bool
  tokenLimitReached : Bool
  /-- The history after a compaction, if it succeeds. -/
  compacted : Option ContextManager
  stopOutcome : StopOutcome
  /-- Whether the legacy hook after the agent aborts the turn. -/
  legacyHookAborts : Bool

/-- A round whose one attempt meets no input, compaction or hook. -/
def Round.quiet (attempt : Attempt) : Round where
  pending := []
  toolsError := none
  trials := [⟨attempt, false⟩]
  hasPendingInput := false
  tokenLimitReached := false
  compacted := none
  stopOutcome := ⟨false, false, none⟩
  legacyHookAborts := false

structure TurnState where
  session : SessionState
  canDrainPendingInput : Bool
  stopHookActive : Bool
  lastAgentMessage : Option String

def TurnState.initial (inputIsEmpty : Bool) : TurnState := ⟨session, inputIsEmpty, false, none⟩

inductive TurnEnding where
  | inputBlocked
  | loopBreak
  | nullCompletions
  | finished
  | hookAborted
  | compactionFailed
  | failed (error : CodexErr)
deriving DecidableEq

/-- How the loop goes on after a round. -/
inductive Next where
  | goOn
  | ended (ending : TurnEnding)
  /-- The round did not get to its end. -/
  | unfinished
deriving DecidableEq

def loopBreakItem : ResponseItem := .inputMessage "developer" loopBreakMessage

def breakLoop (state : TurnState) : TurnState :=
  let session := { state.session with detector := state.session.detector.reset }
  { state with
    session := (session.send [.warning loopBreakMessage]).record env [loopBreakItem]
    lastAgentMessage := none }

variable (round : Round)

/-- How the turn ends when no stop hook continues it. -/
def Round.ending : TurnEnding :=
  if round.stopOutcome.shouldStop then .finished
  else if round.legacyHookAborts then .hookAborted
  else .finished

variable (state : TurnState)

/-- The stop hooks, and the end of the turn unless they continue it. -/
def stopHooks : TurnState × Next :=
  if round.stopOutcome.shouldBlock then
    match round.stopOutcome.prompt with
    | some prompt =>
      ({ state with
          session := state.session.record env [prompt]
          stopHookActive := true }, .goOn)
    | none =>
      ({ state with
          session := state.session.send [.warning
            ("Stop hook requested continuation without a prompt; " ++
              "ignoring the block.")] }, .ended round.ending)
  else (state, .ended round.ending)

def nullCompletionsWarning (count : Nat) : String :=
  "The model produced " ++ Nat.repr count ++ " consecutive empty " ++
    "responses. The conversation context may be too " ++
    "degraded to continue. Please start a new thread " ++
    "(/clear) or try /compact."

/-- A response after which nothing is left to do. -/
def finishTurn (lastAgentMessage : Option String) : TurnState × Next :=
  let count :=
    if lastAgentMessage.isNone then state.session.consecutiveNullCompletions + 1
    else 0
  if 3 ≤ count then
    ({ state with
        session := { state.session with
          consecutiveNullCompletions := 0 }.send [.warning (nullCompletionsWarning count)]
        lastAgentMessage := none },
      .ended .nullCompletions)
  else
    stopHooks env round { state with
        session := { state.session with consecutiveNullCompletions := count }
        lastAgentMessage := lastAgentMessage }

def afterSampling (result : SamplingRequestResult) : TurnState × Next :=
  let state := { state with canDrainPendingInput := true }
  let needsFollowUp := result.needsFollowUp || round.hasPendingInput
  if round.tokenLimitReached && needsFollowUp then
    match round.compacted with
    | none => (state, .ended .compactionFailed)
    | some history =>
      ({ state with
          session := { state.session with history := history }
          canDrainPendingInput := !result.needsFollowUp }, .goOn)
  else if result.loopDetected && needsFollowUp then (breakLoop env state, .ended .loopBreak)
  else if needsFollowUp then (state, .goOn)
  else finishTurn env round state result.lastAgentMessage

/-- The round after a sampling request that fails. -/
def afterFailure (error : CodexErr) : TurnState × Next :=
  match error with
  | .invalidImageRequest =>
    let state := { state with
      session := state.session.report
        "Invalid image detected; sanitizing tool output to prevent poisoning" }
    match state.session.history.replaceLastTurnImages
        env.context.decoders "Invalid image" with
    | some history =>
      ({ state with
          session := { state.session with history := history } }, .goOn)
    | none => (state, .ended (.failed error))
  | error => (state, .ended (.failed error))

/-- What a round leaves, with the calls that each request dispatched. -/
structure RoundRun where
  state : TurnState
  requests : List (List ToolCall)
  next : Next

def sampleRound (maxRetries : Nat) (round : Round) (state : TurnState) : RoundRun :=
  match round.toolsError with
  | some error =>
    let (state, next) := afterFailure env state error
    ⟨state, [], next⟩
  | none =>
    let run := runSamplingRequest env maxRetries round.trials 0
      state.session
    let state := { state with session := run.session }
    match run.outcome with
    | none => ⟨state, run.requests, .unfinished⟩
    | some (.ok result) =>
      let (state, next) := afterSampling env round state result
      ⟨state, run.requests, next⟩
    | some (.error error) =>
      let (state, next) := afterFailure env state error
      ⟨state, run.requests, next⟩

def runRound (maxRetries : Nat) (round : Round) (state : TurnState) : RoundRun :=
  let pending := if state.canDrainPendingInput then round.pending else []
  let (session, blocked) := runHooksAndRecordInputs env state.session pending
  let state := { state with session := session }
  if blocked then ⟨state, [], .ended .inputBlocked⟩
  else sampleRound env maxRetries round state

/-! ## The turn -/

/--
What a turn leaves: the calls that each sampling request dispatched, and why
it ended, unless it still runs after the rounds.
-/
structure TurnRun where
  state : TurnState
  requests : List (List ToolCall)
  ending : Option TurnEnding

def runTurn (env : TurnEnvironment) (maxRetries : Nat) : List Round → TurnState → TurnRun
  | [], state => ⟨state, [], none⟩
  | round :: rounds, state =>
    let run := runRound env maxRetries round state
    match run.next with
    | .goOn =>
      let rest := runTurn env maxRetries rounds run.state
      { rest with requests := run.requests ++ rest.requests }
    | .ended ending => ⟨run.state, run.requests, some ending⟩
    | .unfinished => ⟨run.state, run.requests, none⟩

end Codex.Turn.RunTurn
