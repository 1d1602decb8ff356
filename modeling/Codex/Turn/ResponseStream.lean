import Codex.Sse.GenerateContent
import Codex.Sse.ToolCallLoss
import Codex.Tools.WireNames
import Codex.Turn.Sampling

/-!
# From a wire to the sampling loop

A decoder sends its events on a channel, and `map_response_events` of
`core/src/client.rs` passes them on to the sampling loop: it restores the
names of tools in items and maps errors with `map_api_error`.
-/

namespace Codex.Turn.ResponseStream

open Protocol.Models List
open Sse.Messages (ResponseEvent ApiError Output StreamEnvironment)
open Sse.GenerateContent (GeminiEnvironment isCompletion lastFinish geminiFinishToStopReason)
open Tools.WireNames ToolCalls Sampling

/-! ## Mapped events -/

/-- Whether the message of a rate limit is about a limit that stays. -/
def isPermanentLimit (msg : String) : Bool :=
  ["plan", "quota", "budget", "usage_limit", "limit exceeded"].any
    fun word => decide (word.toList <:+: msg.toLower.toList)

/-- `map_api_error`, for the errors that decoders send. -/
def mapApiError : ApiError → CodexErr
  | .stream msg => .stream msg
  | .serverOverloaded => .other "Selected model is at capacity. Please try a different model." false
  | .rateLimit msg =>
    if isPermanentLimit msg then
      .other "exceeded retry limit, last status: 429 Too Many Requests" false
    else .stream msg

variable (mapping : ToolNameMapping)

def mapResponseEvent : ResponseEvent → ResponseEvent
  | .outputItemDone item => .outputItemDone (restoreOriginalToolNamesInItem item mapping)
  | .outputItemAdded item => .outputItemAdded (restoreOriginalToolNamesInItem item mapping)
  | event => event

/-- The poll that an output of a decoder becomes while no mail is pending. -/
def pollOf : Output → Poll
  | .ok event => .event (mapResponseEvent mapping event) false
  | .error error => .failed (mapApiError error)

theorem callIdOf_restoreOriginalToolNamesInItem (item : ResponseItem) (mapping : ToolNameMapping) :
    callIdOf (restoreOriginalToolNamesInItem item mapping) = callIdOf item := by
  unfold restoreOriginalToolNamesInItem
  split
  · rfl
  · split <;> rfl

/-! ## Wires -/

/-- A response as its decoder polls it, with what the decoder depends on. -/
inductive WireResponse where
  | messages (env : StreamEnvironment) (source : List Codex.Sse.Messages.SourceItem)
  | generateContent (env : GeminiEnvironment)
      (source : List Codex.Sse.GenerateContent.SourceItem)

def WireResponse.outputs : WireResponse → List Output
  | .messages env source => Codex.Sse.Messages.processMessagesSse env source
  | .generateContent env source => Codex.Sse.GenerateContent.processGenerateContentSse env source

namespace WireResponse

def doneItems (response : WireResponse) : List ResponseItem :=
  Codex.Sse.Messages.doneItems response.outputs

/-- A Gemini response whose finish reason is not read as the turn's end. -/
def Asks : WireResponse → Prop
  | .messages _ _ => False
  | .generateContent env source =>
    ∃ reason, lastFinish source = some reason ∧
      geminiFinishToStopReason env.toLowercase reason ≠ "end_turn"

/-- A Gemini response that stalls before it has a finish reason. -/
def Stalls : WireResponse → Prop
  | .messages _ _ => False
  | .generateContent _ source => .idleTimeout ∈ source ∧ lastFinish source = none

/-- A request that meets a response while no mail is pending. -/
def attempt (response : WireResponse) (mapping : ToolNameMapping)
    (resolve : Nat → Resolution) : Attempt where
  refused := none
  polls := response.outputs.map (pollOf mapping)
  resolve := resolve
  cancelled := false

end WireResponse

variable {env : StreamEnvironment}

section Messages

open Sse.Messages Sse.ToolCallLoss

theorem onSourceItem_goesOn {state next : StreamState} {item : SourceItem}
    (goesOn : (onSourceItem env state item).next = some next) :
    ∃ events : List ResponseEvent, (onSourceItem env state item).sent = events.map .ok ∧
        ∀ event ∈ events, isCompletion event = false := by
  have incomplete := (of_goesOn env state next item goesOn).1
  have continued : ∃ (after : StreamState) (events : List ResponseEvent),
      onSourceItem env state item = continueWith after events := by
    cases item with
    | event event =>
      cases event with
      | contentBlockStart index block =>
        simp only [onSourceItem, onEvent, onContentBlockStart]
        split <;> exact ⟨_, _, rfl⟩
      | contentBlockDelta index delta =>
        simp only [onSourceItem, onEvent, onContentBlockDelta]
        split <;> exact ⟨_, _, rfl⟩
      | contentBlockStop index =>
        simp only [onSourceItem, onEvent, onContentBlockStop]
        split <;> exact ⟨_, _, rfl⟩
      | messageStop | error => cases goesOn
      | _ => exact ⟨_, _, rfl⟩
    | skipped => exact ⟨_, _, rfl⟩
    | _ => cases goesOn
  obtain ⟨after, events, continued⟩ := continued
  rw [continued] at incomplete ⊢
  refine ⟨events, rfl, fun event listed => ?_⟩
  have silent := incomplete (.ok event) (mem_map_of_mem listed)
  cases event with
  | completed => cases silent
  | _ => rfl

/--
A stream of `/messages` that completes ends with its completion, which never
asks for another turn.
-/
theorem messages_of_completion
    {state : StreamState} {source : List SourceItem} {completion : ResponseEvent}
    (completes : isCompletion completion = true)
    (sent : .ok completion ∈ processFrom env state source) :
    ∃ (events : List ResponseEvent) (reason : Option String)
      (id : String) (usage : Option Codex.Sse.Usage.TokenUsage)
      (endTurn : Option Bool),
      processFrom env state source = events.map .ok ++ [.ok (.completed reason id usage endTurn)] ∧
        (∀ event ∈ events, isCompletion event = false) ∧
        endTurn ≠ some false := by
  induction source generalizing state with
  | nil => cases mem_singleton.mp sent
  | cons item source ih =>
    rw [processFrom] at sent ⊢
    cases goesOn : (onSourceItem env state item).next with
    | some next =>
      obtain ⟨events, sentNow, incomplete⟩ := onSourceItem_goesOn goesOn
      rw [goesOn] at sent
      rcases mem_append.mp sent with now | later
      · rw [sentNow] at now
        have listed : completion ∈ events := by simpa using now
        rw [incomplete completion listed] at completes
        cases completes
      · obtain ⟨more, reason, id, usage, endTurn, processed, quiet, ends⟩ := ih later
        refine ⟨events ++ more, reason, id, usage, endTurn, ?_, ?_, ends⟩
        · simp only [sentNow, processed, map_append, append_assoc]
        · intro event listed
          rcases mem_append.mp listed with first | second
          · exact incomplete event first
          · exact quiet event second
    | none =>
      rw [goesOn] at sent
      rw [onSourceItem_next_eq_none_iff] at goesOn
      cases item with
      | event event =>
        cases event with
        | messageStop =>
          refine ⟨[], _, _, _, _, rfl, forall_mem_nil _, ?_⟩
          generalize (if state.sawTruncation env.toJsonCodec
            then some "max_tokens" else state.stopReason) = reason
          split <;> simp
        | error error => cases mem_singleton.mp sent
        | _ => cases goesOn
      | skipped => cases goesOn
      | _ => cases mem_singleton.mp sent

end Messages

end Codex.Turn.ResponseStream
