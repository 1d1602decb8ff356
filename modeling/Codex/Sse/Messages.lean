import Codex.Protocol.Models
import Codex.Sse.Usage
import Codex.Sse.WireTypes
import Codex.Tools.FlatNames
import Mathlib.Data.List.AList

/-!
# Decoding a `/messages` stream

The model of `process_messages_sse` in `codex-api/src/sse/messages.rs`.  The
decoder keeps the blocks in flight by their index, appends deltas to them, and
emits a finished item when a block stops.  The loop ends at `message_stop`, at
an error event, and when the source fails, times out or closes.
-/

namespace Codex.Sse.Messages

open Protocol.JsonValue Protocol.Models Usage WireTypes Tools.FlatNames List Option

/-! ## Events and errors -/

/--
`ResponseEvent`.  The snapshots that a session only stores are carried as JSON.
-/
inductive ResponseEvent where
  | created
  | serverModel (model : String)
  | modelVerifications (verifications : List Value)
  | serverReasoningIncluded (included : Bool)
  | outputItemAdded (item : ResponseItem)
  | outputItemDone (item : ResponseItem)
  | outputTextDelta (delta : String)
  | reasoningSummaryDelta (delta : String) (summaryIndex : Int64)
  | reasoningSummaryPartAdded (summaryIndex : Int64)
  | reasoningContentDelta (delta : String) (contentIndex : Int64)
  | toolCallInputDelta (itemId : String) (callId : Option String) (delta : String)
  | rateLimits (snapshot : Value)
  | modelsEtag (etag : String)
  | completed (stopReason : Option String) (responseId : String)
      (tokenUsage : Option TokenUsage) (endTurn : Option Bool)
deriving DecidableEq

/-- The `ApiError`s that the decoder sends. -/
inductive ApiError where
  | stream (message : String)
  | serverOverloaded
  | rateLimit (message : String)
deriving DecidableEq

/-- What the decoder sends on its channel. -/
abbrev Output := Except ApiError ResponseEvent

/-- What one poll of the event source yields before it closes. -/
inductive SourceItem where
  | event (event : MessageStreamEvent)
  /-- Empty or unreadable data. -/
  | skipped
  | failed (message : String)
  | idleTimeout
deriving DecidableEq

/-- The readers of external crates that the decoder calls. -/
structure StreamEnvironment extends JsonCodec where
  /-- `serde_json::from_value::<AnthropicUsage>`. -/
  usageFromValue : Value → Option AnthropicUsage

/-- The environment of a stream that carries JSON constants and no usage. -/
def constantEnvironment : StreamEnvironment :=
  { constantCodec with usageFromValue := fun _ => none }

/-! ## Blocks in flight -/

inductive BlockState where
  | text (text : String)
  | thinking (thinking signature : String)
  | toolUse (callId name args : String)
  | serverToolUse (id name args : String)
  | webSearchToolResult (toolUseId : String)
  | redactedThinking (data : String)
deriving DecidableEq

abbrev BlockTracker := AList fun _ : UInt64 => BlockState

structure StreamState where
  blocks : BlockTracker
  responseId : String
  usageHolder : Option AnthropicUsage
  stopReason : Option String
  toolUseTruncated : Bool

def StreamState.initial : StreamState where
  blocks := ∅
  responseId := ""
  usageHolder := none
  stopReason := none
  toolUseTruncated := false

def functionCallItem (callId name args : String) : ResponseItem :=
  let parsed := parseFlatMcpToolName name
  .functionCall none parsed.name parsed.nameSpace args callId

variable (env : StreamEnvironment)

def startedState : ContentBlock → Option BlockState
  | .text _ => some (.text "")
  | .thinking _ => some (.thinking "" "")
  | .toolUse id name _ => some (.toolUse id name "")
  | .redactedThinking data => some (.redactedThinking data)
  | .serverToolUse id name input =>
    if name = "web_search" then
      some (.serverToolUse id name (if input = Value.emptyObject then ""
          else env.toText input))
    else none
  | .webSearchToolResult toolUseId _ => some (.webSearchToolResult toolUseId)
  | .codeExecutionToolUse _ _ _ => none
  | .unknown _ _ => none

/-- The item that the start of a block announces, if any. -/
def addedItem : ContentBlock → Option ResponseItem
  | .text _ => some (.message none "assistant" [] none)
  | .thinking _ => some (.reasoning none [] none none none none)
  | .toolUse id name _ => some (functionCallItem id name "")
  | .serverToolUse id name _ =>
    if name = "web_search" then some (.webSearchCall (some id) (some "in_progress") none)
    else none
  | _ => none

/-- The block after a delta and the event that reports the delta. -/
def deltaState (index : UInt64) : BlockState → ContentBlockDelta →
      Option (BlockState × Option ResponseEvent)
  | .text text, .textDelta delta => some (.text (text ++ delta), some (.outputTextDelta delta))
  | .thinking thinking signature, .thinkingDelta delta =>
    some (.thinking (thinking ++ delta) signature,
      some (.reasoningContentDelta delta index.toInt64))
  | .thinking thinking signature, .signatureDelta delta =>
    some (.thinking thinking (signature ++ delta), none)
  | .toolUse callId name args, .inputJsonDelta delta =>
    some (.toolUse callId name (args ++ delta),
      some (.toolCallInputDelta callId (some callId) delta))
  | .serverToolUse id name args, .inputJsonDelta delta =>
    some (.serverToolUse id name (args ++ delta), none)
  | _, _ => none

variable (codec : JsonCodec) (args : String)

def webSearchActionFromArguments : Option WebSearchAction :=
  match codec.fromStr args with
  | none => none
  | some value => (value.getStr "query").map fun query => .search (some query) none

variable (thinking signature : String)

def thinkingBlock : Value :=
  if signature.isEmpty then .object [("type", .string "thinking"), ("thinking", .string thinking)]
  else
    .object [("type", .string "thinking"), ("thinking", .string thinking),
      ("signature", .string signature)]

def thinkingItem : ResponseItem :=
  .reasoning none [.summaryText thinking] none
    (if signature.isEmpty then none else some signature) none
    (some (thinkingBlock thinking signature))

def redactedThinkingItem (data : String) : ResponseItem :=
  .reasoning none [] none (some ("\x00REDACTED\x00" ++ data)) none (some (.object
      [("type", .string "redacted_thinking"), ("data", .string data)]))

def textItem (text : String) : ResponseItem := .message none "assistant" [.outputText text] none

/-- The item that the stop of a block emits, if any. -/
def doneItem : BlockState → Option ResponseItem
  | .serverToolUse id name args =>
    if name = "web_search" then
      some (.webSearchCall (some id) (some "completed")
        (webSearchActionFromArguments codec args))
    else none
  | .webSearchToolResult _ => none
  | .toolUse callId name args => some (functionCallItem callId name args)
  | .text text => some (textItem text)
  | .thinking thinking signature =>
    if thinking.isEmpty then none
    else some (thinkingItem thinking signature)
  | .redactedThinking data => some (redactedThinkingItem data)

/-- Arguments that were cut off: not empty and not JSON. -/
def isTruncatedText : Bool := !args.isEmpty && (codec.fromStr args).isNone

def BlockState.isTruncated : BlockState → Bool
  | .toolUse _ _ args => isTruncatedText codec args
  | _ => false

/-! ## The loop -/

/-- What one iteration sends and how the loop goes on. -/
structure StepResult where
  sent : List Output
  next : Option StreamState

variable (state : StreamState)

def continueWith (sent : List ResponseEvent) : StepResult := ⟨sent.map .ok, some state⟩

def finishWith (sent : Output) : StepResult := ⟨[sent], none⟩

def onMessageStart (message : MessageStartPayload) : StepResult :=
  continueWith { state with
      responseId := message.id.getD state.responseId
      usageHolder :=
        (message.usage.bind env.usageFromValue).or
          state.usageHolder }
    ((message.model.map ResponseEvent.serverModel).toList ++ [.created])

variable (index : UInt64)

def onContentBlockStart (block : ContentBlock) : StepResult :=
  let sent := ((addedItem block).map ResponseEvent.outputItemAdded).toList
  match startedState env block with
  | some started => continueWith { state with blocks := state.blocks.insert index started } sent
  | none => continueWith state sent

def onContentBlockDelta (delta : ContentBlockDelta) : StepResult :=
  match (state.blocks.lookup index).bind
      fun block => deltaState index block delta with
  | some (block, sent) =>
    continueWith { state with blocks := state.blocks.insert index block } sent.toList
  | none => continueWith state []

def onContentBlockStop : StepResult :=
  match state.blocks.lookup index with
  | none => continueWith state []
  | some block =>
    continueWith { state with
        blocks := state.blocks.erase index
        toolUseTruncated :=
          state.toolUseTruncated ||
            block.isTruncated env.toJsonCodec }
      ((doneItem env.toJsonCodec block).map ResponseEvent.outputItemDone).toList

def onMessageDelta (stopReason : Option StopReason) (usage : Option Value) : StepResult :=
  continueWith { state with
      stopReason := (stopReason.map StopReason.asWireStr).or state.stopReason
      usageHolder :=
        match usage.bind env.usageFromValue with
        | none => state.usageHolder
        | some usage => some (mergeUsage state.usageHolder usage) }
    []

/-- Whether `message_stop` finds a truncated tool use, done or in flight. -/
def StreamState.sawTruncation : Bool :=
  state.toolUseTruncated || state.blocks.entries.any fun entry => entry.2.isTruncated codec

def onMessageStop : StepResult :=
  let stopReason :=
    if state.sawTruncation env.toJsonCodec then some "max_tokens"
    else state.stopReason
  finishWith (.ok (.completed stopReason state.responseId (state.usageHolder.map fun usage =>
      normalizeTokenUsage usage.toRawUsage)
    (if stopReason = some "end_turn" then some true else none)))

def onError (error : ErrorPayload) : StepResult :=
  let message := error.message.getD "unknown anthropic error"
  finishWith (.error (match AnthropicErrorKind.fromWire (error.errorType.getD "") with
    | .overloaded => .serverOverloaded
    | .rateLimit => .rateLimit message
    | .unknown _ => .stream ("Anthropic API error: " ++ message)))

def onEvent : MessageStreamEvent → StepResult
  | .messageStart message => onMessageStart env state message
  | .contentBlockStart index block => onContentBlockStart env state index block
  | .contentBlockDelta index delta => onContentBlockDelta state index delta
  | .contentBlockStop index => onContentBlockStop env state index
  | .messageDelta stopReason usage => onMessageDelta env state stopReason usage
  | .messageStop => onMessageStop env state
  | .ping => continueWith state []
  | .error error => onError error
  | .unknown _ _ => continueWith state []

def onSourceItem : SourceItem → StepResult
  | .event event => onEvent env state event
  | .skipped => continueWith state []
  | .failed message => finishWith (.error (.stream message))
  | .idleTimeout => finishWith (.error (.stream "idle timeout waiting for messages SSE"))

/-- `process_messages_sse`, from a state of its variables. -/
def processFrom (env : StreamEnvironment) : StreamState → List SourceItem → List Output
  | _, [] => [.error (.stream "messages stream closed before message_stop")]
  | state, item :: rest =>
    let result := onSourceItem env state item
    match result.next with
    | some next => result.sent ++ processFrom env next rest
    | none => result.sent

def processMessagesSse (source : List SourceItem) : List Output :=
  processFrom env StreamState.initial source

/-! ## Finished items -/

def doneItemOf : Output → Option ResponseItem
  | .ok (.outputItemDone item) => some item
  | _ => none

def doneItems (outputs : List Output) : List ResponseItem := outputs.filterMap doneItemOf

@[simp]
theorem doneItems_append (outputs more : List Output) : doneItems (outputs ++ more) =
      doneItems outputs ++ doneItems more := by
  simp [doneItems]

def isFinal : SourceItem → Bool
  | .event .messageStop => true
  | .event (.error _) => true
  | .failed _ => true
  | .idleTimeout => true
  | _ => false

variable (blocks : BlockTracker)

def blocksAfter : SourceItem → BlockTracker
  | .event (.contentBlockStart index block) =>
    match startedState env block with
    | some started => blocks.insert index started
    | none => blocks
  | .event (.contentBlockDelta index delta) =>
    match (blocks.lookup index).bind
        fun block => deltaState index block delta with
    | some (block, _) => blocks.insert index block
    | none => blocks
  | .event (.contentBlockStop index) => blocks.erase index
  | _ => blocks

/-- The finished items that one source item yields. -/
def doneBy : SourceItem → List ResponseItem
  | .event (.contentBlockStop index) => ((blocks.lookup index).bind (doneItem codec)).toList
  | _ => []

/--
The finished items of a stream: they depend on nothing but the blocks in
flight.
-/
def doneRun (env : StreamEnvironment) : BlockTracker → List SourceItem → List ResponseItem
  | _, [] => []
  | blocks, item :: rest =>
    if isFinal item then []
    else
      doneBy env.toJsonCodec blocks item ++
        doneRun env (blocksAfter env blocks item) rest

theorem doneItems_map_ok {sent : List ResponseEvent}
    (noneDone : ∀ event ∈ sent, doneItemOf (.ok event) = none) : doneItems (sent.map .ok) = [] := by
  simpa [doneItems, filterMap_eq_nil_iff] using noneDone

theorem deltaState_report {index : UInt64} {before after : BlockState} {delta : ContentBlockDelta}
    {report : Option ResponseEvent} {holds : ResponseEvent → Prop}
    (applied : deltaState index before delta = some (after, report))
    (text : ∀ delta, holds (.outputTextDelta delta))
    (reasoning : ∀ delta index, holds (.reasoningContentDelta delta index))
    (input : ∀ id callId delta, holds (.toolCallInputDelta id callId delta)) :
    ∀ event ∈ report.toList, holds event := by
  unfold deltaState at applied
  split at applied <;> cases applied <;> simp [text, reasoning, input]

theorem onSourceItem_blocks (env : StreamEnvironment) (state : StreamState) (item : SourceItem) :
    let result := onSourceItem env state item
    doneItems result.sent = doneBy env.toJsonCodec state.blocks item ∧
      result.next.map StreamState.blocks = if isFinal item then none
        else some (blocksAfter env state.blocks item) := by
  cases item with
  | event event =>
    cases event with
    | messageStart message =>
      refine ⟨doneItems_map_ok ?_, rfl⟩
      cases message.model <;> simp [doneItemOf]
    | contentBlockStart index block =>
      have announced : ∀ event ∈ ((addedItem block).map ResponseEvent.outputItemAdded).toList,
          doneItemOf (.ok event) = none := by
        cases addedItem block <;> simp [doneItemOf]
      cases started : startedState env block <;>
        simp [onSourceItem, onEvent, onContentBlockStart, started,
          continueWith, doneItems_map_ok announced, doneBy,
          isFinal, blocksAfter]
    | contentBlockDelta index delta =>
      simp only [onSourceItem, onEvent, onContentBlockDelta, isFinal, doneBy, blocksAfter]
      cases found : (state.blocks.lookup index).bind fun block => deltaState index block delta with
      | none => exact ⟨rfl, rfl⟩
      | some changed =>
        obtain ⟨block, report⟩ := changed
        refine ⟨doneItems_map_ok ?_, rfl⟩
        obtain ⟨before, _, applied⟩ := bind_eq_some_iff.mp found
        exact deltaState_report applied (fun _ => rfl) (fun _ _ => rfl) fun _ _ _ => rfl
    | contentBlockStop index =>
      cases found : state.blocks.lookup index with
      | none =>
        have absent : state.blocks.erase index = state.blocks := by
          apply AList.ext
          exact kerase_of_notMem_keys (AList.lookup_eq_none.mp found)
        simp [onSourceItem, onEvent, onContentBlockStop, found,
          continueWith, doneItems, doneBy, isFinal, blocksAfter,
          absent]
      | some block =>
        cases doneHere : doneItem env.toJsonCodec block <;>
          simp [onSourceItem, onEvent, onContentBlockStop, found,
            continueWith, doneItems, doneItemOf, doneBy, isFinal,
            blocksAfter, doneHere]
    | _ => exact ⟨rfl, rfl⟩
  | _ => exact ⟨rfl, rfl⟩

variable (env : StreamEnvironment) (state : StreamState)

theorem onSourceItem_next_eq_none_iff (item : SourceItem) :
    (onSourceItem env state item).next = none ↔ isFinal item = true := by
  have blocks := (onSourceItem_blocks env state item).2
  rw [← map_eq_none_iff, blocks]
  by_cases final : isFinal item = true <;> simp [final]

theorem doneItems_processFrom (source : List SourceItem) :
    doneItems (processFrom env state source) = doneRun env state.blocks source := by
  induction source generalizing state with
  | nil => rfl
  | cons item rest ih =>
    obtain ⟨sent, blocks⟩ := onSourceItem_blocks env state item
    cases next : (onSourceItem env state item).next with
    | none =>
      have final := (onSourceItem_next_eq_none_iff env state item).mp next
      have nothing : doneBy env.toJsonCodec state.blocks item = [] := by
        cases item with
        | event event => cases event <;> simp_all [isFinal, doneBy]
        | _ => rfl
      simp [processFrom, next, doneRun, final, sent, nothing]
    | some following =>
      simp only [next, map_some] at blocks
      have goesOn : isFinal item = false := by
        by_contra final
        simp [final] at blocks
      simp only [goesOn, Bool.false_eq_true, if_false, Option.some.injEq] at blocks
      simp [processFrom, next, doneRun, goesOn, sent, ih, blocks]

end Codex.Sse.Messages
