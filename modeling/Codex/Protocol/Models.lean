import Codex.Protocol.JsonValue

/-!
# Conversation items

The data model of `protocol/src/models.rs` and of the rollout records of
`protocol/src/protocol.rs`: what a conversation history holds and what a
rollout file stores.  Records keep the fields that the modelled functions
read or return.
-/

namespace Codex.Protocol.Models

open JsonValue

/-! ## Message content -/

inductive ImageDetail where
  | auto
  | low
  | high
  | original
deriving DecidableEq

inductive ContentItem where
  | inputText (text : String)
  | inputImage (imageUrl : String) (detail : Option ImageDetail)
  | outputText (text : String)
deriving DecidableEq

inductive MessagePhase where
  | commentary
  | finalAnswer
deriving DecidableEq

inductive ReasoningItemReasoningSummary where
  | summaryText (text : String)
deriving DecidableEq

inductive ReasoningItemContent where
  | reasoningText (text : String)
  | text (text : String)
deriving DecidableEq

inductive FunctionCallOutputContentItem where
  | inputText (text : String)
  | inputImage (imageUrl : String) (detail : Option ImageDetail)
  | encryptedContent (encryptedContent : String)
deriving DecidableEq

inductive FunctionCallOutputBody where
  | text (content : String)
  | contentItems (items : List FunctionCallOutputContentItem)
deriving DecidableEq

structure FunctionCallOutputPayload where
  body : FunctionCallOutputBody
  success : Option Bool
deriving DecidableEq

/-! ## Tool calls run by the provider or the local shell -/

inductive LocalShellStatus where
  | completed
  | inProgress
  | incomplete
deriving DecidableEq

/-- `LocalShellExecAction`, the payload of the only `LocalShellAction`. -/
structure LocalShellExecAction where
  command : List String
  timeoutMs : Option Nat
  workingDirectory : Option String
  env : Option (List (String × String))
  user : Option String
deriving DecidableEq

inductive WebSearchAction where
  | search (query : Option String) (queries : Option (List String))
  | openPage (url : Option String)
  | findInPage (url pattern : Option String)
  | other
deriving DecidableEq

/-! ## Response items -/

inductive ResponseItem where
  | message (id : Option String) (role : String)
      (content : List ContentItem) (phase : Option MessagePhase)
  | reasoning (id : Option String) (summary : List ReasoningItemReasoningSummary)
      (content : Option (List ReasoningItemContent))
      (encryptedContent : Option String)
      (metadataPassthrough : Option (Option String))
      (rawWireBlock : Option Value)
  | localShellCall (id callId : Option String) (status : LocalShellStatus)
      (action : LocalShellExecAction)
  | functionCall (id : Option String) (name : String)
      (nameSpace : Option String) (args callId : String)
  | toolSearchCall (id callId status : Option String) (execution : String) (args : Value)
  | functionCallOutput (callId : String) (output : FunctionCallOutputPayload)
  | customToolCall (id status : Option String) (callId name input : String)
  | customToolCallOutput (callId : String) (name : Option String)
      (output : FunctionCallOutputPayload)
  | toolSearchOutput (callId : Option String) (status execution : String) (tools : List Value)
  | webSearchCall (id status : Option String) (action : Option WebSearchAction)
  | imageGenerationCall (id status : String) (revisedPrompt : Option String) (result : String)
  | compaction (encryptedContent : String)
  | compactionTrigger
  | contextCompaction (encryptedContent : Option String)
  | other
deriving DecidableEq

/-! ## Rollout records -/

/-- A message with one text item, as a user or a client writes it. -/
def ResponseItem.inputMessage (role text : String) : ResponseItem :=
  .message none role [.inputText text] none

structure PreviousTurnSettings where
  model : String
  realtimeActive : Option Bool
deriving DecidableEq

/--
`TurnContextItem`.  Replay reads `turnId`, `model` and `realtimeActive`; the
other persisted fields are only carried, as the JSON they are stored as.
-/
structure TurnContextItem where
  turnId : Option String
  model : String
  realtimeActive : Option Bool
  environment : Value
deriving DecidableEq

structure CompactedItem where
  message : String
  replacementHistory : Option (List ResponseItem)
deriving DecidableEq

/--
`SessionMetaLine`.  Loading reads the thread id of the metadata; the other
fields are carried as JSON.
-/
structure SessionMetaLine where
  id : String
  details : Value
deriving DecidableEq

/--
`EventMsg`.  The lifecycle events that replay matches on have constructors of
their own; every other event is a tag with its payload.
-/
inductive EventMsg where
  | turnStarted (turnId : String)
  | turnComplete (turnId : String)
  | turnAborted (turnId : Option String)
  | userMessage (message : String)
  | threadRolledBack (numTurns : UInt32)
  | other (tag : String) (payload : Value)
deriving DecidableEq

inductive RolloutItem where
  | sessionMeta (line : SessionMetaLine)
  | responseItem (item : ResponseItem)
  | compacted (item : CompactedItem)
  | turnContext (item : TurnContextItem)
  | eventMsg (event : EventMsg)
deriving DecidableEq

end Codex.Protocol.Models
