import Codex.Protocol.Models
import Codex.Tools.FlatNames

/-!
# Tool calls and their answers

`ToolRouter::build_tool_call` reads a tool call off a response item,
`ToolCallRuntime::handle_tool_call` of `core/src/tools/parallel.rs` turns what
became of it into an answer, and `ToolOutput::to_response_item` writes the
answer under the id of the call.
-/

namespace Codex.Turn.ToolCalls

open Protocol.JsonValue Protocol.Models Tools.FlatNames

/-! ## Calls -/

structure SearchToolCallParams where
  query : String
  limit : Option Nat
deriving DecidableEq

inductive ToolPayload where
  | function (args : String)
  | toolSearch (args : SearchToolCallParams)
  | custom (input : String)
deriving DecidableEq

def ToolPayload.logPayload : ToolPayload → String
  | .function args => args
  | .toolSearch args => args.query
  | .custom input => input

structure ToolCall where
  toolName : ToolName
  callId : String
  payload : ToolPayload
deriving DecidableEq

/-- `ToolName` as text: the namespace right before the name. -/
def displayName (tool : ToolName) : String := tool.nameSpace.getD "" ++ tool.name

inductive FunctionCallError where
  | respondToModel (msg : String)
  | fatal (msg : String)
deriving DecidableEq

def FunctionCallError.text : FunctionCallError → String
  | .respondToModel msg => msg
  | .fatal msg => "Fatal error: " ++ msg

/--
The reader of `SearchToolCallParams` in `serde_json`, which fails with a
message.
-/
abbrev SearchReader := Value → Except String SearchToolCallParams

def buildToolCall (reader : SearchReader) :
    ResponseItem → Except FunctionCallError (Option ToolCall)
  | .functionCall _ name nameSpace args callId =>
    .ok (some ⟨⟨name, nameSpace⟩, callId, .function args⟩)
  | .toolSearchCall _ (some callId) _ execution args =>
    if execution = "client" then
      match reader args with
      | .ok args => .ok (some ⟨⟨"tool_search", none⟩, callId, .toolSearch args⟩)
      | .error msg => .error (.respondToModel ("failed to parse tool_search arguments: " ++ msg))
    else .ok none
  | .toolSearchCall _ none _ _ _ => .ok none
  | .customToolCall _ _ callId name input => .ok (some ⟨⟨name, none⟩, callId, .custom input⟩)
  | _ => .ok none

/-! ## Answers -/

/-- `ResponseInputItem`, as far as tools answer with it. -/
inductive ResponseInputItem where
  | functionCallOutput (callId : String) (output : FunctionCallOutputPayload)
  /-- The result is given by the payload that it is converted to. -/
  | mcpToolCallOutput (callId : String) (output : FunctionCallOutputPayload)
  | customToolCallOutput (callId : String) (name : Option String)
      (output : FunctionCallOutputPayload)
  | toolSearchOutput (callId status execution : String) (tools : List Value)
deriving DecidableEq

def ResponseInputItem.toResponseItem : ResponseInputItem → ResponseItem
  | .functionCallOutput callId output => .functionCallOutput callId output
  | .mcpToolCallOutput callId output => .functionCallOutput callId output
  | .customToolCallOutput callId name output => .customToolCallOutput callId name output
  | .toolSearchOutput callId status execution tools =>
    .toolSearchOutput (some callId) status execution tools

/-- The `ToolOutput`s, by how they become a response item. -/
inductive ToolOutput where
  /-- Through `function_tool_response`. -/
  | content (body : List FunctionCallOutputContentItem) (success : Option Bool)
  /-- A function call output whatever the call was. -/
  | function (output : FunctionCallOutputPayload)
  /-- A `CallToolResult`. -/
  | mcp (output : FunctionCallOutputPayload)
  | toolSearch (tools : List Value)
  | aborted (msg : String)
deriving DecidableEq

variable (callId : String) (payload : ToolPayload)

def functionToolResponse (body : List FunctionCallOutputContentItem) (success : Option Bool) :
    ResponseInputItem :=
  let body :=
    match body with
    | [.inputText text] => FunctionCallOutputBody.text text
    | items => .contentItems items
  match payload with
  | .custom _ => .customToolCallOutput callId none ⟨body, success⟩
  | _ => .functionCallOutput callId ⟨body, success⟩

def emptyToolSearch : ResponseInputItem := .toolSearchOutput callId "completed" "client" []

def ToolOutput.toResponseItem : ToolOutput → ResponseInputItem
  | .content body success => functionToolResponse callId payload body success
  | .function output => .functionCallOutput callId output
  | .mcp output => .mcpToolCallOutput callId output
  | .toolSearch tools => .toolSearchOutput callId "completed" "client" tools
  | .aborted msg =>
    match payload with
    | .toolSearch _ => emptyToolSearch callId
    | payload => functionToolResponse callId payload [.inputText msg] none

variable (call : ToolCall)

def failureResponse (error : FunctionCallError) : ResponseInputItem :=
  match call.payload with
  | .toolSearch _ => emptyToolSearch call.callId
  | .custom _ => .customToolCallOutput call.callId none ⟨.text error.text, some false⟩
  | .function _ => .functionCallOutput call.callId ⟨.text error.text, some false⟩

/-- `abort_message`, for a time with one decimal digit. -/
def abortMessage (seconds : String) : String :=
  if call.toolName.nameSpace.isNone &&
      (call.toolName.name == "shell_command" ||
        call.toolName.name == "unified_exec") then
    "Wall time: " ++ seconds ++ " seconds\naborted by user"
  else "aborted by user after " ++ seconds ++ "s"

/-! ## Running a call -/

/-- `CodexErr`, as far as a turn tells the errors apart. -/
inductive CodexErr where
  | turnAborted
  | stream (msg : String)
  | fatal (msg : String)
  | contextWindowExceeded
  | usageLimitReached
  | invalidImageRequest
  | other (msg : String) (retryable : Bool)
deriving DecidableEq

def CodexErr.isRetryable : CodexErr → Bool
  | .stream _ => true
  | .other _ retryable => retryable
  | _ => false

/-- What became of the task of a call, finished or cancelled. -/
inductive TaskResult where
  | finished (output : ToolOutput)
  | failed (error : FunctionCallError)
  | aborted (seconds : String)
deriving DecidableEq

/-- `handle_tool_call`, whose only error is `CodexErr::Fatal` with a text. -/
def handleToolCall : TaskResult → Except String ResponseInputItem
  | .finished output => .ok (output.toResponseItem call.callId call.payload)
  | .failed (.fatal msg) => .error msg
  | .failed error => .ok (failureResponse call error)
  | .aborted seconds =>
    .ok ((ToolOutput.aborted (abortMessage call seconds)).toResponseItem call.callId call.payload)

/-! ## Ids -/

/-- The id that a tool call of this client is to be answered under. -/
def callIdOf : ResponseItem → Option String
  | .functionCall _ _ _ _ callId => some callId
  | .customToolCall _ _ callId _ _ => some callId
  | .toolSearchCall _ callId _ execution _ => if execution = "client" then callId else none
  | _ => none

def outputIdOf : ResponseItem → Option String
  | .functionCallOutput callId _ => some callId
  | .customToolCallOutput callId _ _ => some callId
  | .toolSearchOutput callId _ _ _ => callId
  | _ => none

variable {item : ResponseItem} {reader : SearchReader} {call : ToolCall}

theorem callIdOf_of_buildToolCall
    (built : buildToolCall reader item = .ok (some call)) : callIdOf item = some call.callId := by
  unfold buildToolCall at built
  split at built
  · cases built
    rfl
  next client =>
    split at built
    next execution =>
      split at built
      · cases built
        simp [callIdOf, execution]
      · cases built
    · cases built
  · cases built
  · cases built
    rfl
  · cases built

theorem callIdOf_of_no_call
    (built : buildToolCall reader item = .ok none) : callIdOf item = none := by
  unfold buildToolCall at built
  split at built
  · cases built
  · split at built
    · split at built <;> cases built
    next execution => simp [callIdOf, execution]
  · simp [callIdOf]
  · cases built
  next notFunction notSearch notSearchNone notCustom =>
    cases item with
    | functionCall => exact absurd rfl (notFunction _ _ _ _ _)
    | toolSearchCall id callId =>
      cases callId with
      | none => exact absurd rfl (notSearchNone _ _ _ _)
      | some => exact absurd rfl (notSearch _ _ _ _ _)
    | customToolCall => exact absurd rfl (notCustom _ _ _ _ _)
    | _ => rfl

theorem buildToolCall_of_callIdOf (reader : SearchReader) (plain : callIdOf item = none) :
    buildToolCall reader item = .ok none := by
  cases item with
  | functionCall | customToolCall => cases plain
  | toolSearchCall id callId status execution args =>
    cases callId with
    | none => rfl
    | some callId =>
      have remote : execution ≠ "client" := by
        intro client
        simp [callIdOf, client] at plain
      simp [buildToolCall, remote]
  | _ => rfl

theorem buildToolCall_ne_fatal (reader : SearchReader) (item : ResponseItem) (msg : String) :
    buildToolCall reader item ≠ .error (.fatal msg) := by
  unfold buildToolCall
  split
  · nofun
  · split
    · split <;> nofun
    · nofun
  · nofun
  · nofun
  · nofun

theorem outputIdOf_handleToolCall {result : TaskResult}
    {answer : ResponseInputItem} (answered : handleToolCall call result = .ok answer) :
    outputIdOf answer.toResponseItem = some call.callId := by
  have response : ∀ payload body success, outputIdOf (functionToolResponse call.callId payload body
        success).toResponseItem = some call.callId := by
    intro payload body success
    cases payload <;> rfl
  unfold handleToolCall at answered
  split at answered
  next output =>
    cases answered
    cases output with
    | content body success => exact response _ _ _
    | aborted msg => cases payload : call.payload <;> rfl
    | _ => rfl
  · cases answered
  · cases answered
    unfold failureResponse
    cases call.payload <;> rfl
  · cases answered
    cases payload : call.payload <;> rfl

end Codex.Turn.ToolCalls
