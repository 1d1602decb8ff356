import Codex.Rust.Text

/-!
# Tool names and their flat wire form

A tool is identified by a name and an optional namespace.  Some wires have no
place for the split and carry one flat string instead:
`codex-wire-extensions/src/tool_name.rs` writes it, and
`parse_flat_mcp_tool_name` of `codex-api/src/sse/messages.rs` reads it back.
-/

namespace Codex.Tools.FlatNames

open Rust.Text

structure ToolName where
  name : String
  nameSpace : Option String
deriving DecidableEq

variable (name : String)

def flatMcpToolName (nameSpace : Option String) : String :=
  match nameSpace with
  | some nameSpace =>
    if nameSpace.isEmpty then name
    else nameSpace ++ "__" ++ name
  | none => name

def ToolName.toWireName (tool : ToolName) : String := flatMcpToolName tool.name tool.nameSpace

def parseFlatMcpToolName : ToolName :=
  match stripPrefix? name "mcp__" with
  | none => ⟨name, none⟩
  | some rest =>
    match splitOnce rest "__" with
    | none => ⟨name, none⟩
    | some (server, tool) =>
      if server.isEmpty || tool.isEmpty then ⟨name, none⟩
      else ⟨tool, some ("mcp__" ++ server)⟩

/-- The text is `mcp__`, a server, the first two underscores behind it, and a tool. -/
def ReadsQualified (server tool : String) : Prop :=
  ∃ rest, stripPrefix? name "mcp__" = some rest ∧ splitOnce rest "__" = some (server, tool) ∧
    server ≠ "" ∧ tool ≠ ""

theorem parseFlatMcpToolName_of_reads {server tool : String}
    (reads : ReadsQualified name server tool) :
    parseFlatMcpToolName name = ⟨tool, some ("mcp__" ++ server)⟩ ∧
      "mcp__" ++ server ++ "__" ++ tool = name := by
  obtain ⟨rest, stripped, found, someServer, someTool⟩ := reads
  refine ⟨by simp [parseFlatMcpToolName, stripped, found, someServer, someTool], ?_⟩
  rw [stripPrefix?_eq_some name "mcp__" rest stripped, splitOnce_eq_some rest found]
  simp [String.append_assoc]

/-- Reading back keeps the text whole unless it reads as a server and a tool. -/
theorem parseFlatMcpToolName_of_not_reads
    (plain : ∀ server tool, ¬ReadsQualified name server tool) :
    parseFlatMcpToolName name = ⟨name, none⟩ := by
  unfold parseFlatMcpToolName
  split
  · rfl
  next rest stripped =>
    split
    · rfl
    next server tool found =>
      refine if_pos (not_not.mp fun blank => plain server tool ⟨rest, stripped, found, ?_⟩)
      simpa using blank

/-- Reading back either keeps the text whole or only moves the join. -/
theorem parseFlatMcpToolName_cases : parseFlatMcpToolName name = ⟨name, none⟩ ∨
      ∃ nameSpace tool, parseFlatMcpToolName name = ⟨tool, some nameSpace⟩ ∧
          nameSpace ≠ "" ∧ nameSpace ++ "__" ++ tool = name := by
  by_cases qualified : ∃ server tool, ReadsQualified name server tool
  · obtain ⟨server, tool, reads⟩ := qualified
    obtain ⟨parsed, rejoined⟩ := parseFlatMcpToolName_of_reads name reads
    exact .inr ⟨_, tool, parsed, by simp, rejoined⟩
  · exact .inl (parseFlatMcpToolName_of_not_reads name
      fun server tool reads => qualified ⟨server, tool, reads⟩)

end Codex.Tools.FlatNames
