import Codex.Turn.Items

/-!
# Streaming in plan mode

The plan-mode handlers of `core/src/session/turn.rs`.  A streamed message is
split into a plan item and an agent message.  The agent message is announced
only when text outside the plan arrives that is not blank, and the plan item is
completed from the finished message.
-/

namespace Codex.Turn.PlanMode

open Rust.Text Protocol.Models StreamParser.AssistantText Items List

/-! ## State -/

structure ProposedPlanItemState where
  itemId : String
  started : Bool
  completed : Bool
deriving DecidableEq

structure PlanModeStreamState where
  pendingAgentMessageItems : AList fun _ : String => TurnItem
  startedAgentMessageItems : List String
  leadingWhitespaceByItem : AList fun _ : String => List Char
  planItemState : ProposedPlanItemState

def PlanModeStreamState.new (turnId : String) : PlanModeStreamState where
  pendingAgentMessageItems := ∅
  startedAgentMessageItems := []
  leadingWhitespaceByItem := ∅
  planItemState := ⟨turnId ++ "-plan", false, false⟩

namespace ProposedPlanItemState

variable (state : ProposedPlanItemState)

def start : ProposedPlanItemState × List ClientEvent :=
  if state.started || state.completed then (state, [])
  else ({ state with started := true }, [.itemStarted (.plan state.itemId "")])

def pushDelta (delta : List Char) : List ClientEvent :=
  if state.completed || delta.isEmpty then []
  else [.planDelta state.itemId (String.ofList delta)]

def completeWithText (text : List Char) : ProposedPlanItemState × List ClientEvent :=
  if state.completed || !state.started then (state, [])
  else
    ({ state with completed := true }, [.itemCompleted (.plan state.itemId (String.ofList text))])

end ProposedPlanItemState

variable (state : PlanModeStreamState) (itemId : String)

namespace PlanModeStreamState

def maybeEmitPendingAgentMessageStart : PlanModeStreamState × List ClientEvent :=
  if itemId ∈ state.startedAgentMessageItems then (state, [])
  else
    match state.pendingAgentMessageItems.lookup itemId with
    | some item =>
      ({ state with
          pendingAgentMessageItems := state.pendingAgentMessageItems.erase itemId
          startedAgentMessageItems := itemId :: state.startedAgentMessageItems },
        [.itemStarted item])
    | none => (state, [])

/-! ## Segments -/

def handleNormalSegment (delta : List Char) : PlanModeStreamState × List ClientEvent :=
  let leading := (state.leadingWhitespaceByItem.lookup itemId).getD []
  let started := itemId ∈ state.startedAgentMessageItems
  if delta.all isWhiteSpace ∧ ¬ started then
    ({ state with
        leadingWhitespaceByItem := state.leadingWhitespaceByItem.insert itemId (leading ++ delta) },
      [])
  else
    let (state, delta) :=
      if started then (state, delta)
      else
        ({ state with
            leadingWhitespaceByItem := state.leadingWhitespaceByItem.erase itemId },
          leading ++ delta)
    let (state, sent) := state.maybeEmitPendingAgentMessageStart itemId
    (state, sent ++ [.agentMessageContentDelta itemId (String.ofList delta)])

def startPlan : PlanModeStreamState × List ClientEvent :=
  let (plan, sent) := state.planItemState.start
  ({ state with planItemState := plan }, sent)

def handlePlanSegment : ProposedPlanSegment → PlanModeStreamState × List ClientEvent
  | .normal delta =>
    if delta.isEmpty then (state, [])
    else state.handleNormalSegment itemId delta
  | .proposedPlanStart =>
    if state.planItemState.completed then (state, [])
    else state.startPlan
  | .proposedPlanDelta delta =>
    if state.planItemState.completed then (state, [])
    else
      let (state, sent) :=
        if state.planItemState.started then (state, [])
        else state.startPlan
      (state, sent ++ state.planItemState.pushDelta delta)
  | .proposedPlanEnd => (state, [])

def handlePlanSegments (state : PlanModeStreamState) (itemId : String) :
    List ProposedPlanSegment → PlanModeStreamState × List ClientEvent
  | [] => (state, [])
  | segment :: segments =>
    let (next, sent) := state.handlePlanSegment itemId segment
    let (last, later) := next.handlePlanSegments itemId segments
    (last, sent ++ later)

/-! ## Completion -/

def maybeCompletePlanItemFromMessage
    (item : ResponseItem) : PlanModeStreamState × List ClientEvent :=
  match rawAssistantOutputText item with
  | none => (state, [])
  | some text =>
    match extractProposedPlanText text.toList with
    | none => (state, [])
    | some plan =>
      let text := (stripCitations plan).1
      let (state, started) :=
        if state.planItemState.started then (state, [])
        else state.startPlan
      let (plan, completed) := state.planItemState.completeWithText text
      ({ state with planItemState := plan }, started ++ completed)

def emitAgentMessageInPlanMode (msg : AgentMessageItem) : PlanModeStreamState × List ClientEvent :=
  if (trim msg.text).isEmpty then
    ({ state with
        pendingAgentMessageItems := state.pendingAgentMessageItems.erase msg.id
        startedAgentMessageItems := state.startedAgentMessageItems.filter (· ≠ msg.id) },
      [])
  else
    let (state, sent) := state.maybeEmitPendingAgentMessageStart msg.id
    let (state, started) :=
      if msg.id ∈ state.startedAgentMessageItems then (state, [])
      else
        ({ state with
            pendingAgentMessageItems := state.pendingAgentMessageItems.erase msg.id
            startedAgentMessageItems := msg.id :: state.startedAgentMessageItems },
          [ClientEvent.itemStarted ((state.pendingAgentMessageItems.lookup msg.id).getD
              (.agentMessage ⟨msg.id, [], none⟩))])
    ({ state with
        startedAgentMessageItems := state.startedAgentMessageItems.filter (· ≠ msg.id) },
      sent ++ started ++ [.itemCompleted (.agentMessage msg)])

def emitTurnItemInPlanMode (item : TurnItem) (prev : Option TurnItem) :
    PlanModeStreamState × List ClientEvent :=
  match item with
  | .agentMessage msg => state.emitAgentMessageInPlanMode msg
  | item =>
    (state,
      (if prev.isNone then [ClientEvent.itemStarted item] else []) ++ [.itemCompleted item])

end PlanModeStreamState

end Codex.Turn.PlanMode
