import Codex.Protocol.Models
import Codex.Tools.FlatNames

/-!
# Projecting a finished assistant message

The model of `project_anthropic_assistant_message` in
`codex-api/src/sse/response_projection.rs`, the counterpart of the streaming
decoder for responses that arrive whole.
-/

namespace Codex.Sse.ResponseProjection

open Protocol.JsonValue Protocol.Models Tools.FlatNames

variable (block : Value)

def fieldOrEmpty (key : String) : String := (block.getStr key).getD ""

def projectText : List ResponseItem :=
  let text := fieldOrEmpty block "text"
  if text.isEmpty then []
  else [.message none "assistant" [.outputText text] none]

variable (codec : JsonCodec)

def projectToolUse (block : Value) : List ResponseItem :=
  let callId := fieldOrEmpty block "id"
  let name := fieldOrEmpty block "name"
  let input := (block.get "input").getD .emptyObject
  let arguments := codec.toText input
  let parsed := parseFlatMcpToolName name
  [.functionCall none parsed.name parsed.nameSpace arguments callId]

def projectThinking : List ResponseItem :=
  let thinking := fieldOrEmpty block "thinking"
  let signature := fieldOrEmpty block "signature"
  if thinking.isEmpty then []
  else
    let rawBlock : Value :=
      if signature.isEmpty then
        .object [("type", .string "thinking"), ("thinking", .string thinking)]
      else
        .object [("type", .string "thinking"), ("thinking", .string thinking),
            ("signature", .string signature)]
    [.reasoning none [.summaryText thinking] none
      (if signature.isEmpty then none else some signature) none
      (some rawBlock)]

def projectRedactedThinking : List ResponseItem :=
  let data := fieldOrEmpty block "data"
  [.reasoning none [] none (some ("\x00REDACTED\x00" ++ data)) none (some (.object
      [("type", .string "redacted_thinking"), ("data", .string data)]))]

/-- One iteration of the loop over the content blocks. -/
def projectBlock (block : Value) : List ResponseItem :=
  let blockType := fieldOrEmpty block "type"
  if blockType = "text" then projectText block
  else if blockType = "tool_use" then projectToolUse codec block
  else if blockType = "thinking" then projectThinking block
  else if blockType = "redacted_thinking" then projectRedactedThinking block
  else []

def projectAnthropicAssistantMessage (message : Value) : List ResponseItem :=
  match message.get "content" with
  | some (.array blocks) => blocks.flatMap (projectBlock codec)
  | _ => []

end Codex.Sse.ResponseProjection
