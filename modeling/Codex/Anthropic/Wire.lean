import Codex.Protocol.Models
import Codex.Tools.FlatNames

/-!
# The Anthropic messages array

The model of `conversation_to_anthropic_messages` in
`provider-anthropic/src/wire.rs`.  A history is cleaned of orphaned tool
items, translated item by item into role-tagged blocks that are merged while
the role stays the same, and the resulting messages then go through five
passes: tool adjacency, hoisting of tool results, thinking, the trailing
sentinel and cache marks.
-/

namespace Codex.Anthropic.Wire

open Protocol.JsonValue Protocol.Models Rust.Text Tools.FlatNames

/-! ## Parameters -/

/-- The three capability flags of the function. -/
structure Capabilities where
  supportsImage : Bool
  supportsPromptCaching : Bool
  supportsAssistantPrefill : Bool
deriving DecidableEq

/--
Library code that the translation calls: the JSON parser, and the hashed ids
given to calls that have none.  The hash also reads the number of messages
built so far.
-/
structure WireEnvironment where
  json : JsonCodec
  syntheticShellId : List String → Nat → String
  syntheticSearchId : Value → Nat → String

/-- JSON constants only, and ids that spell out the message count. -/
def offlineEnvironment : WireEnvironment where
  json := constantCodec
  syntheticShellId := fun _ count => "toolu_synthetic_" ++ toString count
  syntheticSearchId := fun _ count => "toolu_search_" ++ toString count

/-! ## Orphaned tool items -/

/-- The id under which `clean_orphaned_tool_calls` collects a call. -/
def toolCallId : ResponseItem → Option String
  | .functionCall _ _ _ _ callId => some callId
  | .localShellCall _ callId _ _ => callId
  | .customToolCall _ _ callId _ _ => some callId
  | .toolSearchCall _ callId _ _ _ => callId
  | _ => none

/-- The id under which `clean_orphaned_tool_calls` collects an output. -/
def toolOutputId : ResponseItem → Option String
  | .functionCallOutput callId _ => some callId
  | .customToolCallOutput callId _ _ => some callId
  | .toolSearchOutput callId _ _ _ => callId
  | _ => none

/-- The filter of the second pass of `clean_orphaned_tool_calls`. -/
def keepsItem (paired : String → Bool) : ResponseItem → Bool
  | .functionCall _ _ _ _ callId => paired callId
  | .localShellCall _ callId _ _ => callId.any paired
  | .customToolCall _ _ callId _ _ => paired callId
  | .toolSearchCall _ callId _ _ _ => callId.any paired
  | .functionCallOutput callId _ => paired callId
  | .customToolCallOutput callId _ _ => paired callId
  | .toolSearchOutput callId _ _ _ => callId.any paired
  | _ => true

def cleanOrphanedToolCalls (input : List ResponseItem) : List ResponseItem :=
  let callIds := input.filterMap toolCallId
  let outputIds := input.filterMap toolOutputId
  input.filter (keepsItem fun id => callIds.contains id && outputIds.contains id)

/-! ## Content blocks -/

inductive Role where
  | user
  | assistant
deriving DecidableEq

def Role.text : Role → String
  | .user => "user"
  | .assistant => "assistant"

def reconstructedThinkingMarker : String := "__xli_reconstructed_thinking"

def textBlock (text : String) : Value := .object [("type", .string "text"), ("text", .string text)]

variable (supportsImage : Bool)

/-- An image, or its placeholder for a model without image input. -/
def imageBlock (imageUrl : String) : Value :=
  if supportsImage then
    .object [ ("type", .string "image"), ("source", .object [ ("type", .string "url"),
        ("url", .string imageUrl)])]
  else
    textBlock ("[Image: content not shown — this model does not support image " ++
        "input. Original URL: " ++ imageUrl ++ "]")

def toolUseBlock (id name : String) (input : Value) : Value := .object [
    ("type", .string "tool_use"),
    ("id", .string id),
    ("name", .string name),
    ("input", input)]

def toolResultBlock (toolUseId : String) (content : Value) : Value := .object [
    ("type", .string "tool_result"),
    ("tool_use_id", .string toolUseId),
    ("content", content)]

/-- A `thinking` block rebuilt from the fields of a reasoning item. -/
def rebuiltThinking (text signature : String) : Value := .object [ ("type", .string "thinking"),
    ("thinking", .string text),
    ("signature", .string signature),
    (reconstructedThinkingMarker, .bool true)]

/-- A `redacted_thinking` block rebuilt from a reasoning item. -/
def rebuiltRedactedThinking (data : String) : Value := .object [
    ("type", .string "redacted_thinking"),
    ("data", .string data),
    (reconstructedThinkingMarker, .bool true)]

def contentBlock : ContentItem → Value
  | .inputText text => textBlock text
  | .outputText text => textBlock text
  | .inputImage imageUrl _ => imageBlock supportsImage imageUrl

def isImageItem : FunctionCallOutputContentItem → Bool
  | .inputImage _ _ => true
  | _ => false

/-- The text of a tool output item that is plain text. -/
def inputTextOf : FunctionCallOutputContentItem → Option String
  | .inputText text => some text
  | _ => none

def outputBlock : FunctionCallOutputContentItem → Value
  | .inputText text => textBlock text
  | .inputImage imageUrl _ => imageBlock supportsImage imageUrl
  | .encryptedContent encryptedContent => textBlock encryptedContent

def outputToContent (output : FunctionCallOutputPayload) : Value :=
  match output.body with
  | .text content => .string content
  | .contentItems items =>
    if items.any isImageItem then .array (items.map (outputBlock supportsImage))
    else .string ("\n".intercalate (items.filterMap inputTextOf))

/-! ## Translation of items -/

/-- One call of `append_to_role`, with the item that makes it. -/
structure Contribution where
  role : Role
  blocks : List Value
  source : ResponseItem
deriving DecidableEq

/-- The wire role of a message; system and developer text goes elsewhere. -/
def messageRole (role : String) : Option Role :=
  if role = "system" then none
  else if role = "user" then some .user
  else if role = "assistant" then some .assistant
  else if role = "developer" then none
  else some .user

def isUnreplayableEmptyThinking (rawBlock : Value) : Bool :=
  rawBlock.getStr "type" == some "thinking" && (rawBlock.getStr "thinking").all String.isEmpty

def reasoningText : ReasoningItemContent → String
  | .reasoningText text => text
  | .text text => text

def summaryText : ReasoningItemReasoningSummary → String
  | .summaryText text => text

/--
The blocks of a reasoning item, one for each call of `append_to_role`: the
raw block where there is a replayable one, otherwise blocks rebuilt from the
decomposed fields.
-/
def reasoningBlocks (summary : List ReasoningItemReasoningSummary)
    (content : Option (List ReasoningItemContent)) (encryptedContent : Option String)
    (rawWireBlock : Option Value) : List Value :=
  match rawWireBlock with
  | some rawBlock => if isUnreplayableEmptyThinking rawBlock then [] else [rawBlock]
  | none =>
    match encryptedContent.bind (stripPrefix? · "\x00REDACTED\x00") with
    | some data => [rebuiltRedactedThinking data]
    | none =>
      let signature := encryptedContent.getD ""
      let texts :=
        match content with
        | some items => items.map reasoningText
        | none => ["\n".intercalate (summary.map summaryText)]
      (texts.filter fun text => !text.isEmpty).map (rebuiltThinking · signature)

variable (env : WireEnvironment)

/-- Tool arguments, with an empty object for malformed JSON. -/
def toolInput (args : String) : Value := (env.json.fromStr args).getD .emptyObject

/-- The calls of `append_to_role` that one item makes. -/
def translateItem (supportsImage : Bool)
    (messageCount : Nat) (item : ResponseItem) : List Contribution :=
  match item with
  | .message _ role content _ =>
    match messageRole role with
    | none => []
    | some wireRole =>
      if content.isEmpty then []
      else [⟨wireRole, content.map (contentBlock supportsImage), item⟩]
  | .functionCall _ name nameSpace args callId =>
    [⟨.assistant, [toolUseBlock callId (flatMcpToolName name nameSpace)
      (toolInput env args)], item⟩]
  | .functionCallOutput callId output =>
    [⟨.user, [toolResultBlock callId (outputToContent supportsImage output)], item⟩]
  | .customToolCall _ _ callId name input =>
    [⟨.assistant, [toolUseBlock callId name (toolInput env input)], item⟩]
  | .customToolCallOutput callId _ output =>
    [⟨.user, [toolResultBlock callId (outputToContent supportsImage output)], item⟩]
  | .localShellCall _ callId _ action =>
    [⟨.assistant, [toolUseBlock (callId.getD (env.syntheticShellId action.command messageCount))
      "shell"
      (.object [("command",
        .string (" ".intercalate action.command))])], item⟩]
  | .reasoning _ summary content encryptedContent _ rawWireBlock =>
    (reasoningBlocks summary content encryptedContent rawWireBlock).map
      fun block => ⟨.assistant, [block], item⟩
  | .toolSearchCall _ callId _ _ args =>
    [⟨.assistant, [toolUseBlock (callId.getD (env.syntheticSearchId args messageCount))
      "tool_search" args], item⟩]
  | .toolSearchOutput callId _ _ tools =>
    [⟨.user, [toolResultBlock (callId.getD "") (if tools.isEmpty then .string "No tools found."
        else .array tools)], item⟩]
  | _ => []

/-! ## Messages -/

/-- A message, with the items whose blocks were merged into it. -/
structure Message where
  role : Role
  content : List Value
  sources : List ResponseItem
deriving DecidableEq

namespace Message

def toJson (message : Message) : Value := .object [ ("role", .string message.role.text),
    ("content", .array message.content)]

def roleOf (message : Value) : Option String := message.getStr "role"

def contentOf (message : Value) : List Value :=
  match message.get "content" with
  | some (.array blocks) => blocks
  | _ => []

variable (message : Message) (content : List Value)

@[simp]
theorem roleOf_toJson : roleOf message.toJson = some message.role.text := by
  simp [roleOf, toJson, Value.getStr, Value.get, lookup, Value.asStr]

@[simp]
theorem contentOf_toJson : contentOf message.toJson = message.content := by
  simp [contentOf, toJson, Value.get, lookup]

def ofContribution (contribution : Contribution) : Message where
  role := contribution.role
  content := contribution.blocks
  sources := [contribution.source]

/-- The message after a contribution of its own role. -/
def extend (message : Message) (contribution : Contribution) : Message where
  role := message.role
  content := message.content ++ contribution.blocks
  sources := message.sources ++ [contribution.source]

def withContent (message : Message) (content : List Value) : Message :=
  { message with content := content }

@[simp]
theorem withContent_role : (message.withContent content).role = message.role := rfl

@[simp]
theorem withContent_content : (message.withContent content).content = content := rfl

@[simp]
theorem withContent_sources : (message.withContent content).sources = message.sources := rfl

end Message

variable (msgs : List Message)

def appendToRole (contribution : Contribution) : List Message :=
  match msgs.getLast? with
  | some last =>
    if last.role = contribution.role then msgs.dropLast ++ [last.extend contribution]
    else msgs ++ [Message.ofContribution contribution]
  | none => msgs ++ [Message.ofContribution contribution]

def appendItem (supportsImage : Bool)
    (msgs : List Message) (item : ResponseItem) : List Message :=
  (translateItem env supportsImage msgs.length item).foldl appendToRole msgs

def translateItems (supportsImage : Bool) (items : List ResponseItem) : List Message :=
  items.foldl (appendItem env supportsImage) []

/-! ## Tool adjacency -/

def hasType (kind : String) (block : Value) : Bool := block.getStr "type" == some kind

def blockIds (kind idKey : String) (content : List Value) : List String :=
  (content.filter (hasType kind)).filterMap (·.getStr idKey)

def Message.toolUseIds (message : Message) : List String := blockIds "tool_use" "id" message.content

def Message.toolResultIds (message : Message) : List String :=
  blockIds "tool_result" "tool_use_id" message.content

def nextResultIds (next : Option Message) : List String :=
  match next with
  | some message => if message.role = .user then message.toolResultIds else []
  | none => []

def previousUseIds (prev : Option Message) : List String :=
  match prev with
  | some message => if message.role = .assistant then message.toolUseIds else []
  | none => []

/--
Strip the blocks of a type whose id the neighbour does not have.  Nothing is
touched when every id is matched, so a block of the type without an id is only
looked at when another one is stripped.
-/
def stripUnmatched (kind idKey : String) (neighbourIds : List String)
    (content : List Value) : List Value :=
  let ids := blockIds kind idKey content
  if ids.all neighbourIds.contains then content
  else
    content.filter fun block =>
      !hasType kind block || (ids.contains ((block.getStr idKey).getD "") &&
          neighbourIds.contains ((block.getStr idKey).getD ""))

def cleanMessage (prev next : Option Message) (message : Message) : Message :=
  match message.role with
  | .assistant =>
    message.withContent (stripUnmatched "tool_use" "id" (nextResultIds next) message.content)
  | .user =>
    message.withContent (stripUnmatched "tool_result" "tool_use_id"
        (previousUseIds prev) message.content)

/--
Pass 1: messages are cleaned from left to right in place, so the previous
message is read after its own cleaning and the next one before it.
-/
def cleanFrom (prev : Option Message) : List Message → List Message
  | [] => []
  | message :: rest =>
    let cleaned := cleanMessage prev rest.head? message
    cleaned :: cleanFrom (some cleaned) rest

def cleanOrphanedToolBlocksByAdjacency : List Message :=
  (cleanFrom none msgs).filter fun message => !message.content.isEmpty

/-! ## Hoisting tool results -/

def hoistMessage (message : Message) : Message :=
  if message.role = .user then
    let isResult := hasType "tool_result"
    let content := message.content
    let firstIsResult := content.head?.any isResult
    let allLeadingAreResults :=
      (content.takeWhile isResult).length == (content.filter isResult).length
    if !content.any isResult then message
    else if firstIsResult && allLeadingAreResults then message
    else
      message.withContent (content.filter isResult ++ content.filter fun block => !isResult block)
  else message

def hoistToolResultsToFront : List Message := msgs.map hoistMessage

/-! ## Thinking -/

/-- Whether a block is a thinking block, plain or redacted. -/
def isThinking (block : Value) : Bool :=
  hasType "thinking" block || hasType "redacted_thinking" block

def isReconstructed (block : Value) : Bool :=
  ((block.get reconstructedThinkingMarker).bind Value.asBool).getD false

def Message.isAssistant (message : Message) : Bool := message.role == .assistant

def stripMessage (latest : Bool) (message : Message) : Message :=
  if message.isAssistant then
    message.withContent (message.content.filter fun block =>
        if latest then !(isThinking block && isReconstructed block)
        else !isThinking block)
  else message

/-- The loop over the messages; the last assistant message is the latest. -/
def stripThinking : List Message → List Message
  | [] => []
  | message :: rest => stripMessage (!rest.any Message.isAssistant) message :: stripThinking rest

def scrubMarker (message : Message) : Message := message.withContent
    (message.content.map (·.remove reconstructedThinkingMarker))

def stripThinkingFromNonLatestAssistantMessages : List Message :=
  if msgs.any Message.isAssistant then
    ((stripThinking msgs).map scrubMarker).filter fun message =>
      !message.isAssistant || !message.content.isEmpty
  else msgs

/-! ## The trailing sentinel -/

/-- The user message that follows a trailing assistant message. -/
def sentinelMessage (last : Message) : Message where
  role := .user
  content := [textBlock (if last.content.any (hasType "tool_use")
      then "[Awaiting tool result]" else "[Continue]")]
  sources := []

/-- Close a trailing assistant message where prefill is not supported. -/
def appendSentinel (supportsAssistantPrefill : Bool) (msgs : List Message) : List Message :=
  match msgs.getLast? with
  | some last =>
    if !supportsAssistantPrefill && last.isAssistant then msgs ++ [sentinelMessage last]
    else msgs
  | none => msgs

/-! ## Cache marks -/

def markLastBlockCacheControl (message : Message) : Message :=
  match message.content.getLast? with
  | some last =>
    message.withContent (message.content.dropLast ++ [last.insert "cache_control"
          (.object [("type", .string "ephemeral")])])
  | none => message

/-- Mark the first `budget` user messages of a list. -/
def markUsers : (budget : Nat) → List Message → List Message
  | 0, msgs => msgs
  | _, [] => []
  | budget + 1, message :: rest =>
    if message.role = .user then markLastBlockCacheControl message :: markUsers budget rest
    else message :: markUsers (budget + 1) rest

/-- `apply_history_cache_control`: the walk goes from the back. -/
def applyHistoryCacheControl : List Message := (markUsers 2 msgs.reverse).reverse

/-! ## The function -/

variable (capabilities : Capabilities) (input : List ResponseItem)

/-- The messages of a history before they are written as JSON. -/
def historyMessages : List Message :=
  let translated := translateItems env capabilities.supportsImage (cleanOrphanedToolCalls input)
  let adjacent := cleanOrphanedToolBlocksByAdjacency translated
  let hoisted := hoistToolResultsToFront adjacent
  let stripped := stripThinkingFromNonLatestAssistantMessages hoisted
  let closed := appendSentinel capabilities.supportsAssistantPrefill stripped
  if capabilities.supportsPromptCaching then applyHistoryCacheControl closed
  else closed

def conversationToAnthropicMessages : List Value :=
  (historyMessages env capabilities input).map Message.toJson

end Codex.Anthropic.Wire
