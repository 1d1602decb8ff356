import Codex.Library.FreshChoice
import Codex.Rust.Text
import Mathlib.Data.List.Dedup
import Mathlib.Data.List.Sort

/-!
# Names of MCP tools

`normalize_tools_for_model_with_prefix` of `codex-mcp/src/tools.rs` gives every
MCP tool a namespace and a name that the model may see.  It cleans both up,
adds a digest to namespaces and then to names that different tools share, and
last walks over the tools in a fixed order and shortens or renames those that
are too long or already taken.
-/

namespace Codex.Mcp.ToolNames

open Rust.Text Library

/-! ## Tools and their identities -/

/-- The fields of `ToolInfo` that naming reads. -/
structure ToolInfo where
  serverName : String
  callableName : String
  callableNamespace : String
  /-- `tool.name`, the name under which the server knows the tool. -/
  toolName : String
  connectorId : Option String
deriving DecidableEq

variable (tool : ToolInfo)

def rawNamespaceIdentity : String :=
  tool.serverName ++ "\x00" ++ tool.callableNamespace ++ "\x00" ++ tool.connectorId.getD ""

def rawToolIdentity : String :=
  rawNamespaceIdentity tool ++ "\x00" ++ tool.callableName ++ "\x00" ++ tool.toolName

def maxToolNameLength : Nat := 64

def callableNameHashLen : Nat := 12

def mcpToolNameDelimiter : String := "__"

def legacyMcpToolNamePrefix : String := "mcp__"

/-! ## Cleaning up -/

def isNameCharacter (char : Char) : Bool := char.isAlphanum || char == '_'

def sanitizeResponsesApiToolName (name : String) : String :=
  let sanitized := name.toList.map fun char => if isNameCharacter char then char else '_'
  if sanitized.isEmpty then "_" else String.ofList sanitized

def callableNamespaceWithPrefix (nameSpace : String) (prefixMcpToolNames : Bool) : String :=
  if !prefixMcpToolNames || startsWith nameSpace legacyMcpToolNamePrefix then nameSpace
  else legacyMcpToolNamePrefix ++ nameSpace

/-! ## Digests -/

/-- `sha1_hex`: forty lower-case hexadecimal digits. -/
structure Sha1Hex where
  hex : String → String
  sized : ∀ text, (hex text).length = 40
  digits : ∀ text, ∀ char ∈ (hex text).toList, isNameCharacter char = true

variable (parts : String × String)

section Naming

variable (sha1 : Sha1Hex)

/-- The digits of a digest that go into a name. -/
def hashDigits (rawIdentity : String) : String :=
  String.ofList ((sha1.hex rawIdentity).toList.take callableNameHashLen)

def callableNameHashSuffix (rawIdentity : String) : String := "_" ++ hashDigits sha1 rawIdentity

def appendHashSuffix (value rawIdentity : String) : String :=
  value ++ callableNameHashSuffix sha1 rawIdentity

def appendNamespaceHashSuffix (nameSpace rawIdentity : String) : String :=
  if endsWith nameSpace mcpToolNameDelimiter then
    String.ofList (nameSpace.toList.take (nameSpace.length - 2)) ++
      callableNameHashSuffix sha1 rawIdentity ++ mcpToolNameDelimiter
  else appendHashSuffix sha1 nameSpace rawIdentity

/-! ## Candidates -/

structure CallableToolCandidate where
  tool : ToolInfo
  rawNamespaceIdentity : String
  rawToolIdentity : String
  callableNamespace : String
  callableName : String
deriving DecidableEq

/-- The candidate of a tool before collisions are looked at. -/
def candidateOf (prefixMcpToolNames : Bool) (tool : ToolInfo) : CallableToolCandidate where
  tool := tool
  rawNamespaceIdentity := rawNamespaceIdentity tool
  rawToolIdentity := rawToolIdentity tool
  callableNamespace := callableNamespaceWithPrefix
    (sanitizeResponsesApiToolName tool.callableNamespace) prefixMcpToolNames
  callableName := sanitizeResponsesApiToolName tool.callableName

/-- The first loop: the candidates of the tools not seen before. -/
def candidatesFrom (prefixMcpToolNames : Bool) :
    List String → List ToolInfo → List CallableToolCandidate
  | _, [] => []
  | seenRawNames, tool :: tools =>
    if rawToolIdentity tool ∈ seenRawNames then candidatesFrom prefixMcpToolNames seenRawNames tools
    else
      candidateOf prefixMcpToolNames tool :: candidatesFrom prefixMcpToolNames
          (rawToolIdentity tool :: seenRawNames) tools

def collides {Key : Type} [DecidableEq Key] (entries : List (Key × String)) (key : Key) : Bool :=
  decide (1 < ((entries.filter (·.1 = key)).map (·.2)).dedup.length)

/-- The second loop: a digest for namespaces that several sources share. -/
def separateNamespaces (candidates : List CallableToolCandidate) : List CallableToolCandidate :=
  let entries := candidates.map fun cand => (cand.callableNamespace, cand.rawNamespaceIdentity)
  candidates.map fun cand =>
    if collides entries cand.callableNamespace then
      { cand with
        callableNamespace := appendNamespaceHashSuffix sha1
          cand.callableNamespace cand.rawNamespaceIdentity }
    else cand

/-- The third loop: a digest for names that several tools share. -/
def separateTools (candidates : List CallableToolCandidate) : List CallableToolCandidate :=
  let entries := candidates.map fun cand =>
    ((cand.callableNamespace, cand.callableName), cand.rawToolIdentity)
  candidates.map fun cand =>
    if collides entries
        (cand.callableNamespace, cand.callableName) then
      { cand with
        callableName := appendHashSuffix sha1 cand.callableName cand.rawToolIdentity }
    else cand

/-- The candidates after the three loops, in the order of their identities. -/
def sortedCandidates (tools : List ToolInfo) (prefixMcpToolNames : Bool) :
    List CallableToolCandidate :=
  (separateTools sha1 (separateNamespaces sha1
        (candidatesFrom prefixMcpToolNames [] tools))).insertionSort
    fun left right => left.rawToolIdentity ≤ right.rawToolIdentity

/-! ## Fitting and choosing -/

def truncateName (value : String) (maxLen : Nat) : String :=
  String.ofList (value.toList.take maxLen)

def fitCallablePartsWithHash (nameSpace toolName rawIdentity : String)
    (reservedLen : Nat) : String × String :=
  let suffix := callableNameHashSuffix sha1 rawIdentity
  let maxToolLen := maxToolNameLength - (nameSpace.utf8ByteSize + reservedLen)
  if suffix.utf8ByteSize ≤ maxToolLen then
    (nameSpace, truncateName toolName (maxToolLen - suffix.utf8ByteSize) ++ suffix)
  else
    let maxNamespaceLen := maxToolNameLength - (suffix.utf8ByteSize + reservedLen)
    (truncateName nameSpace maxNamespaceLen, suffix)

/-- `u32::MAX`, where the attempt counter stops. -/
def u32Max : Nat := 4294967295

/-- The text that is hashed in an attempt of `unique_callable_parts`. -/
def hashInput (rawIdentity : String) (attempt : Nat) : String :=
  if attempt = 0 then rawIdentity
  else rawIdentity ++ "\x00" ++ toString attempt

/-- `model_name`, under which parts are looked up in `used_names`. -/
def modelName : String := parts.1 ++ parts.2

/-- The parts that the given iteration of the retry loop tries. -/
def fallbackParts (nameSpace toolName rawIdentity : String)
    (reservedLen iteration : Nat) : String × String :=
  fitCallablePartsWithHash sha1 nameSpace toolName
    (hashInput rawIdentity (min iteration u32Max)) reservedLen

/--
`unique_callable_parts`.  The retry loop has no bound of its own; here it may
try once more than there are used names, and `none` says that every try was
taken.
-/
def uniqueCallableParts (nameSpace toolName rawIdentity : String)
    (usedNames : List String) (reservedLen : Nat) : Option (String × String) :=
  if (modelName (nameSpace, toolName)).utf8ByteSize + reservedLen ≤
        maxToolNameLength ∧
      modelName (nameSpace, toolName) ∉ usedNames then
    some (nameSpace, toolName)
  else
    FreshChoice.search modelName (fallbackParts sha1 nameSpace toolName rawIdentity reservedLen)
      usedNames (usedNames.length + 1) 0

/-- The choice of one candidate in the last loop. -/
def chooseParts (usedNames : List String)
    (cand : CallableToolCandidate) : Option (String × String) :=
  uniqueCallableParts sha1 cand.callableNamespace
    cand.callableName cand.rawToolIdentity usedNames
    mcpToolNameDelimiter.utf8ByteSize

def renamed : ToolInfo := { tool with callableNamespace := parts.1, callableName := parts.2 }

def normalizeToolsForModelWithPrefix (tools : List ToolInfo)
    (prefixMcpToolNames : Bool) : Option (List ToolInfo) :=
  let candidates := sortedCandidates sha1 tools prefixMcpToolNames
  (FreshChoice.assign modelName (chooseParts sha1) [] candidates).map
    fun choices => (candidates.zip choices).map fun entry => renamed entry.1.tool entry.2

end Naming

end Codex.Mcp.ToolNames
