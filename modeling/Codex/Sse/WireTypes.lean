import Codex.Protocol.JsonValue

/-!
# The event vocabulary of a `/messages` stream

The typed events of `codex-api/src/sse/messages_wire_types.rs`.  The reader of
the raw text is derived by an external crate and is not modelled; a stream is
here a list of typed events.
-/

namespace Codex.Sse.WireTypes

open Protocol.JsonValue

inductive ContentBlock where
  | text (text : String)
  | toolUse (id name : String) (input : Value)
  | thinking (thinking : String)
  | redactedThinking (data : String)
  | serverToolUse (id name : String) (input : Value)
  | webSearchToolResult (toolUseId : String) (content : Value)
  | codeExecutionToolUse (id name : String) (input : Value)
  | unknown (tag : String) (raw : Value)
deriving DecidableEq

inductive ContentBlockDelta where
  | textDelta (text : String)
  | inputJsonDelta (partialJson : String)
  | thinkingDelta (thinking : String)
  | signatureDelta (signature : String)
  | citationsDelta (citation : Value)
  | unknown (tag : String) (raw : Value)
deriving DecidableEq

inductive StopReason where
  | endTurn
  | maxTokens
  | stopSequence
  | toolUse
  | pauseTurn
  | refusal
  | unknown
deriving DecidableEq

def StopReason.asWireStr : StopReason → String
  | .endTurn => "end_turn"
  | .maxTokens => "max_tokens"
  | .stopSequence => "stop_sequence"
  | .toolUse => "tool_use"
  | .pauseTurn => "pause_turn"
  | .refusal => "refusal"
  | .unknown => "unknown"

inductive AnthropicErrorKind where
  | overloaded
  | rateLimit
  | unknown (errorType : String)
deriving DecidableEq

def AnthropicErrorKind.fromWire (errorType : String) : AnthropicErrorKind :=
  if errorType = "overloaded_error" then .overloaded
  else if errorType = "rate_limit_error" then .rateLimit
  else .unknown errorType

structure MessageStartPayload where
  id : Option String
  model : Option String
  usage : Option Value
deriving DecidableEq

structure ErrorPayload where
  errorType : Option String
  message : Option String
deriving DecidableEq

inductive MessageStreamEvent where
  | messageStart (message : MessageStartPayload)
  | contentBlockStart (index : UInt64) (contentBlock : ContentBlock)
  | contentBlockDelta (index : UInt64) (delta : ContentBlockDelta)
  | contentBlockStop (index : UInt64)
  | messageDelta (stopReason : Option StopReason) (usage : Option Value)
  | messageStop
  | ping
  | error (error : ErrorPayload)
  | unknown (tag : String) (raw : Value)
deriving DecidableEq

end Codex.Sse.WireTypes
