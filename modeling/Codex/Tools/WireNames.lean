import Codex.Tools.FlatNames
import Codex.Protocol.Models

/-!
# Tool names under a length cap

The Responses and Gemini wires cap a tool name at 64 bytes.
`codex-api/src/wire/tool_name.rs` shortens a longer name to a front part and a
digest, remembers which name each short form stands for, and puts the original
back when the model calls the tool.
-/

namespace Codex.Tools.WireNames

open Rust.Text Protocol.JsonValue Protocol.Models

/-! ## Declared tools -/

structure ResponsesApiTool where
  name : String
  description : String
  strict : Bool
  parameters : Value
deriving DecidableEq

/-- `ResponsesApiNamespace`, whose only kind of member is a function. -/
structure ResponsesApiNamespace where
  name : String
  description : String
  tools : List ResponsesApiTool
deriving DecidableEq

structure FreeformToolFormat where
  type : String
  grammar : String
  definition : String
deriving DecidableEq

structure FreeformTool where
  name : String
  description : String
  format : FreeformToolFormat
deriving DecidableEq

/-- `ToolSpec`; the hosted tools carry no name of their own. -/
inductive ToolSpec where
  | function (tool : ResponsesApiTool)
  | nameSpace (tools : ResponsesApiNamespace)
  | toolSearch
  | imageGeneration
  | webSearch
  | freeform (tool : FreeformTool)
deriving DecidableEq

/-- A function that a tool list declares, with the namespace it is under. -/
structure Declared where
  nameSpace : Option String
  name : String
deriving DecidableEq

def Declared.spelling (declared : Declared) : String := declared.nameSpace.getD "" ++ declared.name

def ToolSpec.declared : ToolSpec → List Declared
  | .function tool => [⟨none, tool.name⟩]
  | .nameSpace members => members.tools.map fun tool => ⟨some members.name, tool.name⟩
  | _ => []

variable (tools : List ToolSpec)

def declaredFunctions : List Declared := tools.flatMap ToolSpec.declared

/-! ## Shortening -/

def openaiMaxToolNameLength : Nat := 64

def toolNameHashLength : Nat := 8

def toolNamePrefixLength : Nat := 55

/-- `sha256_hex`: two hexadecimal digits for each of the 32 digest bytes. -/
structure Sha256Hex where
  hex : String → String
  sized : ∀ text, (hex text).length = 64

/--
`truncate_tool_name`.  The source cuts at a byte position, which is the same
character position in the ASCII names that it is written for.
-/
def truncateToolName (sha256 : Sha256Hex) (name : String) : String :=
  if name.utf8ByteSize ≤ openaiMaxToolNameLength then name
  else
    String.ofList (name.toList.take toolNamePrefixLength) ++ "_" ++
      String.ofList ((sha256.hex name).toList.take toolNameHashLength)

/-- `ToolNameMapping`, newest entry first, so that a later insert wins. -/
abbrev ToolNameMapping := List (String × String)

/-- The loop of `tool_name_mapping`, from the mapping built so far. -/
def toolNameMappingFrom (sha256 : Sha256Hex) : ToolNameMapping → List String → ToolNameMapping
  | mapping, [] => mapping
  | mapping, original :: names =>
    let truncated := truncateToolName sha256 original
    toolNameMappingFrom sha256 (if truncated ≠ original then (truncated, original) :: mapping
       else mapping)
      names

def toolNameMapping (sha256 : Sha256Hex) (names : List String) : ToolNameMapping :=
  toolNameMappingFrom sha256 [] names

/-! ## Restoring -/

def restoreOriginalToolName (truncated : String) (mapping : ToolNameMapping) : String :=
  (mapping.lookup truncated).getD truncated

def restoreCallName (mapping : ToolNameMapping) (nameSpace : Option String)
    (name : String) : Option String × String :=
  match nameSpace with
  | some nameSpace =>
    let restoredWire := restoreOriginalToolName (nameSpace ++ name) mapping
    match stripPrefix? restoredWire nameSpace with
    | some rest => (some nameSpace, rest)
    | none => (none, restoredWire)
  | none => (none, restoreOriginalToolName name mapping)

def restoreOriginalToolNamesInItem (item : ResponseItem)
    (mapping : ToolNameMapping) : ResponseItem :=
  if mapping.isEmpty then item
  else
    match item with
    | .functionCall id name nameSpace args callId =>
      let restored := restoreCallName mapping nameSpace name
      .functionCall id restored.2 restored.1 args callId
    | item => item

/-! ## The Responses wire -/

def ToolSpec.responsesNames : ToolSpec → List String
  | .function tool => [tool.name]
  | .nameSpace members => members.tools.map (·.name)
  | _ => []

def responsesWireToolNames : List String := tools.flatMap ToolSpec.responsesNames

section Responses

variable (sha256 : Sha256Hex) (ensureOpenaiStrict : Value → Option Value)

/--
`prepare_responses_api_tool`, with the strict-mode pass over the schema and
its conversions as one fallible step.
-/
def prepareResponsesApiTool (tool : ResponsesApiTool) : Option ResponsesApiTool := do
  let parameters ← ensureOpenaiStrict tool.parameters
  return { tool with
    name := truncateToolName sha256 tool.name
    parameters := parameters
    strict := true }

def prepareToolSpec : ToolSpec → Option ToolSpec
  | .function tool => (prepareResponsesApiTool sha256 ensureOpenaiStrict tool).map .function
  | .nameSpace members =>
    (members.tools.mapM (prepareResponsesApiTool sha256 ensureOpenaiStrict)).map
      fun tools => .nameSpace { members with tools := tools }
  | other => some other

/-- `prepare_responses_wire_tools`, before the tools are written as JSON. -/
def prepareResponsesWireTools (tools : List ToolSpec) : Option (List ToolSpec × ToolNameMapping) :=
  (tools.mapM (prepareToolSpec sha256 ensureOpenaiStrict)).map
    fun out => (out, toolNameMapping sha256 (responsesWireToolNames tools))

end Responses

/-! ## The Gemini wire -/

def ToolSpec.geminiNames : ToolSpec → List String
  | .function tool => [tool.name]
  | .nameSpace members => members.tools.map fun tool => members.name ++ tool.name
  | .freeform tool => [tool.name]
  | _ => []

def geminiWireToolNames : List String := tools.flatMap ToolSpec.geminiNames

structure FunctionDeclaration where
  name : String
  description : String
  parameters : Value
deriving DecidableEq

inductive GeminiTool where
  | functionDeclarations (declarations : List FunctionDeclaration)
  | googleSearch
deriving DecidableEq

def freeformDescription (tool : FreeformTool) : String := tool.description ++
    "\n\nThis is a FREEFORM tool. Put your raw freeform content into the " ++
      "\"input\" parameter as a single string — do NOT wrap it in any other " ++
      "structure.\n\nFormat (" ++ tool.format.type ++ " / " ++
    tool.format.grammar ++ "): " ++ tool.format.definition

def freeformParameters : Value := .object [("type", .string "object"), ("properties", .object
       [("input", .object [("type", .string "string"),
          ("description", .string "The freeform tool content.")])]),
     ("required", .array [.string "input"])]

section Gemini

variable (sha256 : Sha256Hex) (sanitizeForGemini : Value → Value)

def ToolSpec.geminiDeclarations : ToolSpec → List FunctionDeclaration
  | .function tool =>
    [⟨truncateToolName sha256 tool.name, tool.description, sanitizeForGemini tool.parameters⟩]
  | .freeform tool =>
    [⟨truncateToolName sha256 tool.name, freeformDescription tool,
      sanitizeForGemini freeformParameters⟩]
  | .nameSpace members =>
    members.tools.map fun tool =>
      ⟨truncateToolName sha256 (members.name ++ tool.name),
        tool.description, sanitizeForGemini tool.parameters⟩
  | _ => []

def toolsToGeminiFormat (tools : List ToolSpec) (webSearchEnabled : Bool) :
    Option (List GeminiTool) :=
  let declarations := tools.flatMap (ToolSpec.geminiDeclarations sha256 sanitizeForGemini)
  if declarations.isEmpty && !webSearchEnabled then none
  else
    some ((if declarations.isEmpty then []
        else [.functionDeclarations declarations]) ++
        if webSearchEnabled then [.googleSearch] else [])

end Gemini

end Codex.Tools.WireNames
