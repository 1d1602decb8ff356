import Codex.Context.ContextHistory
import Codex.Sse.Messages
import Codex.Turn.LoopDetection
import Codex.Turn.PlanMode
import Codex.Turn.ToolCalls

/-!
# One sampling request

The model of `try_run_sampling_request` in `core/src/session/turn.rs` and of
the item handlers of `core/src/stream_events_utils.rs`.  The loop polls the
response stream; each event may send events to clients, record items and queue
tool calls.  When the loop ends the parsers are flushed and the answers of the
queued calls are recorded in the order of the calls.
-/

namespace Codex.Turn.Sampling

open Rust.Text Protocol.Models Context.ContextHistory Context.TextTruncation
  StreamParser.AssistantText Sse.Messages Items LoopDetection PlanMode
  ToolCalls

/-! ## Sessions -/

/-- What a turn depends on outside the modelled code. -/
structure TurnEnvironment where
  context : HistoryEnvironment
  truncationPolicy : TruncationPolicy
  fresh : FreshIds
  hashString : String → UInt64
  searchReader : SearchReader
  planMode : Bool
  turnId : String
  /-- The turn item contributors of extensions. -/
  contributors : List (TurnItem → TurnItem)
  /-- The path that a generated image is saved to, if saving succeeds. -/
  saveImage : String → String → Option String
  /-- The text of `ImageGenerationInstructions`. -/
  imageInstructions : String
  /-- The order in which a hash map of finished parsers is iterated. -/
  drainOrder : List (String × AssistantTextChunk) → List (String × AssistantTextChunk)
  drainOrder_perm : ∀ finished, (drainOrder finished).Perm finished

/-- The reader of tool search arguments that give only a query. -/
def queryReader : SearchReader := fun value =>
  match value.getStr "query" with
  | some query => .ok ⟨query, none⟩
  | none => .error "missing field `query`"

/--
A turn outside plan mode without contributors, where texts hash to their
lengths and parsers are drained in the order of their table.
-/
def plainTurn : TurnEnvironment where
  context := plainEnvironment
  truncationPolicy := .bytes 10000
  fresh := countedIds
  hashString text := UInt64.ofNat text.length
  searchReader := queryReader
  planMode := false
  turnId := "turn-1"
  contributors := []
  saveImage _ _ := none
  imageInstructions := ""
  drainOrder finished := finished
  drainOrder_perm finished := .refl finished

/--
The session, as far as a turn changes it; `errors` are the texts given to
`error_or_panic`, and `drawnIds` counts the fresh ids.
-/
structure SessionState where
  history : ContextManager
  events : List ClientEvent
  errors : List String
  detector : LoopDetector
  drawnIds : Nat
  consecutiveNullCompletions : Nat

def SessionState.new : SessionState := ⟨.new, [], [], .new, 0, 0⟩

namespace SessionState

variable (env : TurnEnvironment) (session : SessionState)

def record (items : List ResponseItem) : SessionState :=
  { session with
    history := session.history.recordItems env.context env.truncationPolicy items }

def send (events : List ClientEvent) : SessionState :=
  { session with events := session.events ++ events }

/-- `error_or_panic`, where it does not panic. -/
def report (message : String) : SessionState :=
  { session with errors := session.errors ++ [message] }

def recordAdditionalContexts (contexts : List String) : SessionState :=
  session.record env (contexts.map (ResponseItem.inputMessage "developer"))

end SessionState

variable (env : TurnEnvironment)

/-! ## Items without a tool call -/

variable (session : SessionState)

/-- `handle_non_tool_response_item`, where contributors may be skipped. -/
def handleNonToolResponseItem (runContributors : Bool) (item : ResponseItem) (planMode : Bool) :
    SessionState × Option TurnItem :=
  let (parsed, drawn) := parseTurnItem env.context.decoders
    env.fresh session.drawnIds item
  let session := { session with drawnIds := drawn }
  match parsed with
  | none => (session, none)
  | some turnItem =>
    let turnItem :=
      if runContributors then
        env.contributors.foldl (fun turnItem contribute => contribute turnItem) turnItem
      else turnItem
    match turnItem with
    | .agentMessage message =>
      (session, some (.agentMessage { message with
          content := [stripHiddenAssistantMarkup message.text planMode] }))
    | .imageGeneration id status revisedPrompt result savedPath =>
      match env.saveImage id result with
      | some path =>
        (session.record env [.inputMessage "developer" env.imageInstructions],
          some (.imageGeneration id status revisedPrompt result (some path)))
      | none => (session, some (.imageGeneration id status revisedPrompt result savedPath))
    | turnItem => (session, some turnItem)

/-- `FinalizedTurnItem`, with the one fact that the loop reads. -/
structure FinalizedTurnItem where
  turnItem : TurnItem
  lastAgentMessage : Option String
deriving DecidableEq

variable (item : ResponseItem)

def finalizeNonToolResponseItem (planMode : Bool) : SessionState × Option FinalizedTurnItem :=
  let (session, turnItem) := handleNonToolResponseItem env session true item planMode
  (session, turnItem.map fun turnItem =>
    match turnItem with
    | .agentMessage message =>
      ⟨.agentMessage message, if (trim message.text).isEmpty then none else some message.text⟩
    | turnItem => ⟨turnItem, none⟩)

/-! ## Finished items -/

/-- `OutputItemResult`; a tool future is the call that it runs. -/
structure OutputItemResult where
  lastAgentMessage : Option String
  needsFollowUp : Bool
  toolFuture : Option ToolCall
  loopDetected : Bool
deriving DecidableEq

/-- The item that is announced for an item that was not streamed. -/
def startedItem : TurnItem → TurnItem
  | .imageGeneration id _ _ _ _ => .imageGeneration id "in_progress" none "" none
  | turnItem => turnItem

/-- The first case of `handle_output_item_done`: a tool call. -/
def handleToolCallDone (call : ToolCall) : SessionState × OutputItemResult :=
  let (detector, detected) := session.detector.recordToolCall
    env.hashString (displayName call.toolName)
    call.payload.logPayload
  (({ session with detector := detector }).record env [item], ⟨none, true, some call, detected⟩)

variable (prev : Option TurnItem)

/-- The second case of `handle_output_item_done`: no tool call. -/
def handleOtherItemDone : SessionState × OutputItemResult :=
  let (session, finalized) := finalizeNonToolResponseItem env
    session item env.planMode
  let session :=
    match finalized with
    | some finalized =>
      session.send ((if prev.isNone then
            [ClientEvent.itemStarted (startedItem finalized.turnItem)]
          else []) ++
          [ClientEvent.itemCompleted finalized.turnItem])
    | none => session
  let session := session.record env [item]
  match finalized.bind FinalizedTurnItem.lastAgentMessage with
  | some content =>
    let (detector, detected) := session.detector.recordContent env.hashString content
    ({ session with detector := detector }, ⟨some content, false, none, detected⟩)
  | none => (session, ⟨none, false, none, false⟩)

/-- The third case of `handle_output_item_done`: an answer for the model. -/
def handleRejectedCall (message : String) : SessionState × OutputItemResult :=
  let session := session.record env [item]
  (session.record env [.functionCallOutput "" ⟨.text message, none⟩],
    ⟨none, true, none, false⟩)

def handleOutputItemDone : Except CodexErr (SessionState × OutputItemResult) :=
  match buildToolCall env.searchReader item with
  | .ok (some call) => .ok (handleToolCallDone env session item call)
  | .ok none => .ok (handleOtherItemDone env session item prev)
  | .error (.respondToModel message) => .ok (handleRejectedCall env session item message)
  | .error (.fatal message) => .error (.fatal message)

theorem handleOutputItemDone_ne_error (error : CodexErr) :
    handleOutputItemDone env session item prev ≠ .error error := by
  unfold handleOutputItemDone
  split
  · nofun
  · nofun
  · nofun
  next message built => exact absurd built (buildToolCall_ne_fatal _ item message)

/-! ## The variables of the loop -/

/-- The mutable variables of `try_run_sampling_request`. -/
structure SamplingState where
  session : SessionState
  parsers : AList fun _ : String => AssistantTextStreamParser
  plan : Option PlanModeStreamState
  inFlight : List ToolCall
  needsFollowUp : Bool
  lastAgentMessage : Option String
  activeItem : Option TurnItem
  activeItemIsStreaming : Bool

def SamplingState.initial : SamplingState where
  session := session
  parsers := ∅
  plan := if env.planMode then some (.new env.turnId) else none
  inFlight := []
  needsFollowUp := false
  lastAgentMessage := none
  activeItem := none
  activeItemIsStreaming := false

structure SamplingRequestResult where
  needsFollowUp : Bool
  lastAgentMessage : Option String
  loopDetected : Bool
deriving DecidableEq

namespace SamplingState

variable (state : SamplingState)

def send (events : List ClientEvent) : SamplingState :=
  { state with session := state.session.send events }

/-! ## Streamed text -/

/-- `parser_mut` followed by `push_str`. -/
def pushText (itemId : String) (text : List Char) : SamplingState × AssistantTextChunk :=
  let parser := (state.parsers.lookup itemId).getD
    (.new env.planMode)
  let (parser, chunk) := parser.pushStr text
  ({ state with parsers := state.parsers.insert itemId parser }, chunk)

def seedItemText (itemId text : String) : SamplingState × AssistantTextChunk :=
  if text.isEmpty then (state, .empty)
  else state.pushText env itemId text.toList

def emitStreamedAssistantTextDelta (itemId : String)
    (parsed : AssistantTextChunk) : SamplingState :=
  if parsed.isEmpty then state
  else
    match state.plan with
    | some plan =>
      if parsed.planSegments.isEmpty then state
      else
        let (plan, sent) := plan.handlePlanSegments itemId parsed.planSegments
        { state with plan := some plan }.send sent
    | none =>
      if parsed.visibleText.isEmpty then state
      else state.send [.agentMessageContentDelta itemId (String.ofList parsed.visibleText)]

def flushItem (itemId : String) : SamplingState :=
  match state.parsers.lookup itemId with
  | none => state
  | some parser =>
    { state with parsers := state.parsers.erase itemId
      }.emitStreamedAssistantTextDelta itemId parser.finish.2

def flushAll : SamplingState :=
  let finished := state.parsers.entries.map fun entry => (entry.1, entry.2.finish.2)
  (env.drainOrder finished).foldl (fun state parsed =>
      state.emitStreamedAssistantTextDelta parsed.1 parsed.2)
    { state with parsers := ∅ }

/-! ## Events -/

/-- `handle_assistant_item_done_in_plan_mode`, for an assistant message. -/
def assistantItemDoneInPlanMode (plan : PlanModeStreamState)
    (item : ResponseItem) (prev : Option TurnItem) : SamplingState :=
  let (plan, sent) := plan.maybeCompletePlanItemFromMessage item
  let session := state.session.send sent
  let (session, finalized) := finalizeNonToolResponseItem env session item true
  let (plan, sent) :=
    match finalized with
    | some finalized => plan.emitTurnItemInPlanMode finalized.turnItem prev
    | none => (plan, [])
  { state with
    session := (session.send sent).record env [item]
    plan := some plan
    lastAgentMessage := (finalized.bind FinalizedTurnItem.lastAgentMessage).or
        state.lastAgentMessage }

/-- The item that was streamed when an item is done, with its text flushed. -/
def takeActive : SamplingState × Option TurnItem :=
  let prev := if state.activeItemIsStreaming then state.activeItem else none
  let state := { state with activeItem := none, activeItemIsStreaming := false }
  match prev with
  | some item =>
    (if item.isAgentMessage then state.flushItem item.id else state,
      prev)
  | none => (state, none)

end SamplingState

def preemptForMailboxMail : ResponseItem → Bool
  | .message _ role _ phase => role == "assistant" && phase == some .commentary
  | .reasoning _ _ _ _ _ _ => true
  | _ => false

def isAssistantMessage : ResponseItem → Bool
  | .message _ role _ _ => role == "assistant"
  | _ => false

/-- How the loop goes on after a poll. -/
inductive Flow where
  | next (state : SamplingState)
  | stop (state : SamplingState) (outcome : Except CodexErr SamplingRequestResult)

def Flow.state : Flow → SamplingState
  | .next state => state
  | .stop state _ => state

variable (mail : Bool) (state : SamplingState)

def onItemDone (item : ResponseItem) (prev : Option TurnItem) : Flow :=
  match handleOutputItemDone env state.session item prev with
  | .error error => .stop state (.error error)
  | .ok (session, result) =>
    let state :=
      { state with
        session := session
        inFlight := state.inFlight ++ result.toolFuture.toList
        lastAgentMessage := result.lastAgentMessage.or state.lastAgentMessage
        needsFollowUp := state.needsFollowUp || result.needsFollowUp }
    if preemptForMailboxMail item && mail then
      .stop state (.ok ⟨true, state.lastAgentMessage, false⟩)
    else .next state

def onOutputItemDone (item : ResponseItem) : Flow :=
  let (state, prev) := state.takeActive
  match state.plan with
  | some plan =>
    if isAssistantMessage item then .next (state.assistantItemDoneInPlanMode env plan item prev)
    else onItemDone env mail state item prev
  | none => onItemDone env mail state item prev

def seedItem (item : ResponseItem) (turnItem : TurnItem) :
    SamplingState × TurnItem × Option AssistantTextChunk :=
  match turnItem, rawAssistantOutputText item with
  | .agentMessage message, some text =>
    let (state, seeded) := state.seedItemText env message.id text
    (state, .agentMessage { message with
          content := [if env.planMode then ""
             else String.ofList seeded.visibleText] },
      if env.planMode then some seeded else none)
  | turnItem, _ => (state, turnItem, none)

def streamAddedItem (item : ResponseItem) (turnItem : TurnItem) : SamplingState :=
  let (state, turnItem, seeded) := seedItem env state item turnItem
  let state :=
    match state.plan with
    | some plan =>
      if turnItem.isAgentMessage then
        { state with
          plan := some { plan with
            pendingAgentMessageItems := plan.pendingAgentMessageItems.insert turnItem.id
                turnItem } }
      else state.send [.itemStarted turnItem]
    | none => state.send [.itemStarted turnItem]
  let state :=
    match state.plan, seeded with
    | some _, some parsed => state.emitStreamedAssistantTextDelta turnItem.id parsed
    | _, _ => state
  { state with
    activeItem := some turnItem
    activeItemIsStreaming := true }

def onOutputItemAdded (item : ResponseItem) : SamplingState :=
  let (session, turnItem) := handleNonToolResponseItem env
    state.session false item env.planMode
  let state := { state with session := session }
  match turnItem with
  | none => state
  | some turnItem =>
    if env.contributors.isEmpty then streamAddedItem env state item turnItem
    else
      { state with
        activeItem := some turnItem
        activeItemIsStreaming := false }

/-- A delta for the active item, which is reported where there is none. -/
def onActiveItem (missing : String) (handle : TurnItem → SamplingState) : SamplingState :=
  match state.activeItem with
  | some active => if state.activeItemIsStreaming then handle active else state
  | none => { state with session := state.session.report missing }

def onOutputTextDelta (delta : String) : SamplingState :=
  onActiveItem state "OutputTextDelta without active item" fun active =>
    if active.isAgentMessage then
      let (state, parsed) := state.pushText env active.id delta.toList
      state.emitStreamedAssistantTextDelta active.id parsed
    else state.send [.agentMessageContentDelta active.id delta]

def onCompleted (endTurn : Option Bool) : Flow :=
  let state := state.flushAll env
  let state :=
    { state with
      needsFollowUp := state.needsFollowUp || endTurn == some false }
  -- `loop_detected` is a variable of the source that nothing assigns.
  .stop state (.ok ⟨state.needsFollowUp, state.lastAgentMessage, false⟩)

/-- One iteration of the loop on an event, with mail pending or not. -/
def onResponseEvent : ResponseEvent → Flow
  | .outputItemDone item => onOutputItemDone env mail state item
  | .outputItemAdded item => .next (onOutputItemAdded env state item)
  | .completed _ _ _ endTurn => onCompleted env state endTurn
  | .outputTextDelta delta => .next (onOutputTextDelta env state delta)
  | .reasoningSummaryDelta delta index =>
    .next (onActiveItem state "ReasoningSummaryDelta without active item" fun active =>
        state.send [.reasoningContentDelta active.id delta index])
  | .reasoningSummaryPartAdded index =>
    .next (onActiveItem state "ReasoningSummaryPartAdded without active item" fun active =>
        state.send [.agentReasoningSectionBreak active.id index])
  | .reasoningContentDelta delta index =>
    .next (onActiveItem state "ReasoningRawContentDelta without active item" fun active =>
        state.send [.reasoningRawContentDelta active.id delta index])
  | .created => .next state
  | .serverModel _ => .next state
  | .modelVerifications _ => .next state
  | .serverReasoningIncluded _ => .next state
  | .toolCallInputDelta _ _ _ => .next state
  | .rateLimits _ => .next state
  | .modelsEtag _ => .next state

/-! ## The loop -/

/-- What one poll of the stream yields before it closes. -/
inductive Poll where
  | event (event : ResponseEvent) (mail : Bool)
  | failed (error : CodexErr)
  | cancelled
  /-- Not a poll of the stream: contexts recorded by the hooks of a tool. -/
  | hookContexts (contexts : List String)

def onPoll : Poll → Flow
  | .event event mail => onResponseEvent env mail state event
  | .failed error => .stop state (.error error)
  | .cancelled => .stop state (.error .turnAborted)
  | .hookContexts contexts =>
    .next { state with
      session := state.session.recordAdditionalContexts env contexts }

def sampleLoop (env : TurnEnvironment) : List Poll → SamplingState →
      SamplingState × Except CodexErr SamplingRequestResult
  | [], state => (state, .error (.stream "stream closed before response.completed"))
  | poll :: polls, state =>
    match onPoll env state poll with
    | .next state => sampleLoop env polls state
    | .stop state outcome => (state, outcome)

/-- How the task of a queued call resolves, after what its hooks record. -/
structure Resolution where
  contexts : List String
  result : TaskResult
deriving DecidableEq

def drainOne (call : ToolCall) (resolution : Resolution) : SessionState :=
  let session := session.recordAdditionalContexts env resolution.contexts
  match handleToolCall call resolution.result with
  | .ok answer => session.record env [answer.toResponseItem]
  | .error message =>
    session.report ("in-flight tool future failed during drain: Fatal error: " ++ message)

/--
`drain_in_flight`, where `resolve` gives what becomes of the calls by their
position.
-/
def drainInFlight (env : TurnEnvironment) (resolve : Nat → Resolution) :
    Nat → List ToolCall → SessionState → SessionState
  | _, [], session => session
  | pos, call :: calls, session =>
    drainInFlight env resolve (pos + 1) calls
      (drainOne env session call (resolve pos))

/-- What a sampling request meets. -/
structure Attempt where
  /-- The error of opening the stream, if it is not opened. -/
  refused : Option CodexErr
  polls : List Poll
  resolve : Nat → Resolution
  /-- Whether the turn is cancelled once all calls are answered. -/
  cancelled : Bool

/-- What a sampling request leaves, with the calls that it dispatched. -/
structure Sampled where
  session : SessionState
  calls : List ToolCall
  outcome : Except CodexErr SamplingRequestResult

/-- The end of the loop, with all parsers flushed. -/
def sampled (polls : List Poll) (session : SessionState) :
    SamplingState × Except CodexErr SamplingRequestResult :=
  let (state, outcome) := sampleLoop env polls
    (.initial env session)
  (state.flushAll env, outcome)

def tryRunSamplingRequest (attempt : Attempt) (session : SessionState) : Sampled :=
  match attempt.refused with
  | some error => ⟨session, [], .error error⟩
  | none =>
    let (state, outcome) := sampled env attempt.polls session
    ⟨drainInFlight env attempt.resolve 0 state.inFlight state.session, state.inFlight,
      if attempt.cancelled then .error .turnAborted else outcome⟩

/-! ## What streamed text changes -/

/-- Only events were sent, and only the state of parsing changed. -/
def SamplingState.Streams (state next : SamplingState) : Prop := ∃ events parsers plan, next =
      { state with
        session := state.session.send events
        parsers := parsers
        plan := plan }

namespace SamplingState.Streams

variable (itemId : String)

theorem sent (events : List ClientEvent) : state.Streams (state.send events) :=
  ⟨events, state.parsers, state.plan, rfl⟩

theorem parsed (parsers : AList fun _ : String => AssistantTextStreamParser)
    (plan : Option PlanModeStreamState) :
    state.Streams { state with parsers := parsers, plan := plan } :=
  ⟨[], parsers, plan, by simp [SessionState.send]⟩

theorem refl : state.Streams state := parsed state state.parsers state.plan

theorem trans {state next last : SamplingState}
    (first : state.Streams next) (second : next.Streams last) : state.Streams last := by
  obtain ⟨events, _, _, rfl⟩ := first
  obtain ⟨more, parsers, plan, rfl⟩ := second
  exact ⟨events ++ more, parsers, plan, by simp [SessionState.send]⟩

theorem emit (chunk : AssistantTextChunk) :
    state.Streams (state.emitStreamedAssistantTextDelta itemId chunk) := by
  unfold SamplingState.emitStreamedAssistantTextDelta
  split
  · exact refl state
  · split
    · split
      · exact refl state
      · exact trans (parsed state state.parsers _) (sent _ _)
    · split
      · exact refl state
      · exact sent state _

theorem flushItem : state.Streams (state.flushItem itemId) := by
  unfold SamplingState.flushItem
  split
  · exact refl state
  · exact trans (parsed state _ state.plan) (emit _ _ _)

theorem flushAll : state.Streams (state.flushAll env) := by
  have each : ∀ (finished : List (String × AssistantTextChunk)) (state : SamplingState),
      state.Streams (finished.foldl (fun state parsed =>
          state.emitStreamedAssistantTextDelta parsed.1 parsed.2)
        state) := by
    intro finished
    induction finished with
    | nil => exact refl
    | cons parsed finished ih => exact fun state => trans (emit _ _ _) (ih _)
  exact trans (parsed state ∅ state.plan) (each _ _)

theorem pushText (text : List Char) : state.Streams (state.pushText env itemId text).1 :=
  parsed state _ state.plan

theorem seedItem (item : ResponseItem) (turnItem : TurnItem) :
    state.Streams (Sampling.seedItem env state item turnItem).1 := by
  unfold Sampling.seedItem
  cases turnItem with
  | agentMessage message =>
    cases rawAssistantOutputText item with
    | none => exact refl state
    | some text =>
      show state.Streams (state.seedItemText _ _ _).1
      unfold SamplingState.seedItemText
      split
      · exact refl state
      · exact pushText env state _ _
  | _ => exact refl state

end SamplingState.Streams

end Codex.Turn.Sampling
