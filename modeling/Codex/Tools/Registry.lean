import Codex.Library.CollisionIndex
import Codex.Tools.FlatNames

/-!
# Resolving inbound tool names

The model of `ToolRegistry::resolve_name` in `core/src/tools/registry.rs`.  A
registered name is found as it is.  Any other name goes through the flat
index, which holds three spellings of every namespaced tool and drops those
that two tools share.
-/

namespace Codex.Tools.Registry

open Rust.Text Library.CollisionIndex FlatNames List

/-! ## The registry -/

abbrev FlatLookup := Ownership ToolName

def indexTool (index : String → Option FlatLookup) (canonical : ToolName) :
    String → Option FlatLookup :=
  match canonical.nameSpace with
  | none => index
  | some nameSpace =>
    let name := canonical.name
    insert (insert (insert index (nameSpace ++ "__" ++ name) canonical)
        (nameSpace ++ name) canonical)
      name canonical

def buildFlatIndex (names : List ToolName) : String → Option FlatLookup :=
  names.foldl indexTool fun _ => none

/-- `ToolRegistry`, with the keys of `tools` in some order. -/
structure ToolRegistry where
  tools : List ToolName
  flatIndex : String → Option FlatLookup
  indexed : flatIndex = buildFlatIndex tools

variable (tools : List ToolName)

def ToolRegistry.new : ToolRegistry := ⟨tools, buildFlatIndex tools, rfl⟩

/-- The spellings of an inbound name that the flat index is asked for. -/
def candidates (inbound : ToolName) : List String :=
  match inbound.nameSpace with
  | some nameSpace => [nameSpace ++ "__" ++ inbound.name, nameSpace ++ inbound.name]
  | none => [inbound.name, ""]

variable (registry : ToolRegistry)

/-- The tool that the flat index gives for a candidate, if it is unique. -/
def ToolRegistry.lookupFlat (cand : String) : Option ToolName :=
  match registry.flatIndex cand with
  | some (.unique canonical) => some canonical
  | _ => none

def ToolRegistry.resolveName (inbound : ToolName) : Option ToolName :=
  if inbound ∈ registry.tools then some inbound
  else ((candidates inbound).filter fun cand => !cand.isEmpty).findSome? registry.lookupFlat

/-! ## The flat index by its spellings -/

/-- The flat spellings of a tool that the index holds. -/
def spellings (tool : ToolName) : List String :=
  match tool.nameSpace with
  | none => []
  | some nameSpace => [nameSpace ++ "__" ++ tool.name, nameSpace ++ tool.name, tool.name]

/-- A registered tool that alone has a spelling. -/
def Spells (text : String) (tool : ToolName) : Prop :=
  tool ∈ tools ∧ text ∈ spellings tool ∧ ∀ other ∈ tools, text ∈ spellings other → other = tool

instance (tools : List ToolName) (text : String) (tool : ToolName) :
    Decidable (Spells tools text tool) :=
  inferInstanceAs (Decidable (_ ∧ _))

def spellingClaims : List (String × ToolName) :=
  tools.flatMap fun tool => (spellings tool).map fun text => (text, tool)

variable (registry : ToolRegistry) (tools : List ToolName) (name text nameSpace : String)
  (tool : ToolName)

theorem mem_spellingClaims :
    (text, tool) ∈ spellingClaims tools ↔ tool ∈ tools ∧ text ∈ spellings tool := by
  simp only [spellingClaims, mem_flatMap, mem_map, Prod.mk.injEq]
  constructor
  · rintro ⟨owner, mem, spelling, spelled, rfl, rfl⟩
    exact ⟨mem, spelled⟩
  · rintro ⟨mem, spelled⟩
    exact ⟨tool, mem, text, spelled, rfl, rfl⟩

theorem soleOwner_spellingClaims :
    SoleOwner (spellingClaims tools) text tool ↔ Spells tools text tool := by
  simp only [SoleOwner, Spells, mem_spellingClaims, and_assoc, and_imp]

/-- The loop of the source enters exactly these claims. -/
theorem buildFlatIndex_eq_build : buildFlatIndex tools = build (spellingClaims tools) := by
  unfold buildFlatIndex build spellingClaims
  rw [foldl_flatMap]
  congr 1
  funext index canonical
  cases found : canonical.nameSpace <;>
    simp [indexTool, spellings, found]

theorem flatIndex_eq_unique_iff :
    registry.flatIndex text = some (.unique tool) ↔ Spells registry.tools text tool := by
  rw [registry.indexed, buildFlatIndex_eq_build, build_eq_unique_iff, soleOwner_spellingClaims]

theorem lookupFlat_eq_some_iff :
    registry.lookupFlat text = some tool ↔ Spells registry.tools text tool := by
  rw [← flatIndex_eq_unique_iff]
  unfold ToolRegistry.lookupFlat
  split <;> simp_all

theorem lookupFlat_eq_none_iff :
    registry.lookupFlat text = none ↔ ∀ tool, ¬Spells registry.tools text tool := by
  rw [Option.eq_none_iff_forall_ne_some]
  simp only [ne_eq, lookupFlat_eq_some_iff]

/-! ## Resolution -/

theorem resolveName_of_mem {inbound : ToolName} (mem : inbound ∈ registry.tools) :
    registry.resolveName inbound = some inbound := by
  simp [ToolRegistry.resolveName, mem]

theorem resolveName_plain (absent : ⟨name, none⟩ ∉ registry.tools) (nonempty : name ≠ "") :
    registry.resolveName ⟨name, none⟩ = registry.lookupFlat name := by
  simp only [ToolRegistry.resolveName, absent, if_false, candidates]
  cases found : registry.lookupFlat name <;>
    simp [nonempty, found]

theorem resolveName_qualified (absent : ⟨name, some nameSpace⟩ ∉ registry.tools) :
    registry.resolveName ⟨name, some nameSpace⟩ =
      (registry.lookupFlat (nameSpace ++ "__" ++ name)).or (if nameSpace ++ name = "" then none
          else registry.lookupFlat (nameSpace ++ name)) := by
  have joined : (nameSpace ++ "__" ++ name).isEmpty = false := by simp
  simp only [ToolRegistry.resolveName, absent, if_false, candidates]
  cases first : registry.lookupFlat (nameSpace ++ "__" ++ name) with
  | some tool => simp [joined, first]
  | none =>
    by_cases empty : nameSpace ++ name = ""
    · simp [joined, first, empty]
    · cases second : registry.lookupFlat (nameSpace ++ name) <;>
        simp [joined, first, second, empty]

theorem resolveName_qualified_iff : registry.resolveName ⟨name, some nameSpace⟩ = some tool ↔
      (⟨name, some nameSpace⟩ ∈ registry.tools ∧ tool = ⟨name, some nameSpace⟩) ∨
        (⟨name, some nameSpace⟩ ∉ registry.tools ∧
          (Spells registry.tools (nameSpace ++ "__" ++ name) tool ∨ (∀ other, ¬Spells registry.tools
              (nameSpace ++ "__" ++ name) other) ∧
              nameSpace ++ name ≠ "" ∧
              Spells registry.tools (nameSpace ++ name) tool)) := by
  by_cases mem : ⟨name, some nameSpace⟩ ∈ registry.tools
  · rw [resolveName_of_mem registry mem]
    simp only [Option.some.injEq, mem, not_true_eq_false, true_and, false_and, or_false]
    exact eq_comm
  · rw [resolveName_qualified registry name nameSpace mem,
      Option.or_eq_some_iff, lookupFlat_eq_some_iff,
      lookupFlat_eq_none_iff]
    by_cases empty : nameSpace ++ name = ""
    · simp [mem, empty]
    · simp only [mem, false_and, not_false_eq_true, true_and,
        false_or, empty, if_false, lookupFlat_eq_some_iff, ne_eq]

/-! ## Reading flat names back -/

/-- Tools that have pairwise different flat wire names. -/
def FlatDistinct (tools : List ToolName) : Prop := ∀ left ∈ tools, ∀ right ∈ tools,
    left.toWireName = right.toWireName → left = right

theorem toWireName_qualified (nonempty : nameSpace ≠ "") :
    ToolName.toWireName ⟨name, some nameSpace⟩ = nameSpace ++ "__" ++ name := by
  simp [ToolName.toWireName, flatMcpToolName, nonempty]

theorem resolveName_flat_plain_iff (mem : ⟨name, none⟩ ∈ registry.tools) :
    registry.resolveName (parseFlatMcpToolName name) = some ⟨name, none⟩ ↔
      ∀ server tool, ¬ReadsQualified name server tool := by
  constructor
  · intro resolved server tool reads
    rw [(parseFlatMcpToolName_of_reads name reads).1, resolveName_qualified_iff] at resolved
    rcases resolved with ⟨_, same⟩ | ⟨_, spelled | ⟨_, _, spelled⟩⟩
    · simp at same
    · simp [Spells, spellings] at spelled
    · simp [Spells, spellings] at spelled
  · intro plain
    rw [parseFlatMcpToolName_of_not_reads name plain]
    exact resolveName_of_mem registry mem

/-- A tool is what its flat name splits into, or alone has that name or the split one joined. -/
def Recovered (tools : List ToolName) (tool : ToolName) : Prop :=
  (∀ other ∈ tools, tool.toWireName ∈ spellings other → other = tool) ∨
    ∃ server rest, ReadsQualified tool.toWireName server rest ∧
      (tool = ⟨rest, some ("mcp__" ++ server)⟩ ∨ Spells tools ("mcp__" ++ server ++ rest) tool)

theorem resolveName_flat_qualified_iff (distinct : FlatDistinct registry.tools)
    (nonempty : nameSpace ≠ "") (mem : ⟨name, some nameSpace⟩ ∈ registry.tools) :
    registry.resolveName (parseFlatMcpToolName (nameSpace ++ "__" ++ name)) =
        some ⟨name, some nameSpace⟩ ↔
      Recovered registry.tools ⟨name, some nameSpace⟩ := by
  have flat := toWireName_qualified name nameSpace nonempty
  have own : nameSpace ++ "__" ++ name ∈ spellings ⟨name, some nameSpace⟩ := by simp [spellings]
  have spells : Spells registry.tools (nameSpace ++ "__" ++ name) ⟨name, some nameSpace⟩ ↔
      ∀ other ∈ registry.tools, nameSpace ++ "__" ++ name ∈ spellings other →
        other = ⟨name, some nameSpace⟩ :=
    ⟨fun spelled => spelled.2.2, fun alone => ⟨mem, own, alone⟩⟩
  rw [Recovered, flat, ← spells]
  by_cases qualified : ∃ server rest, ReadsQualified (nameSpace ++ "__" ++ name) server rest
  · obtain ⟨server, rest, reads⟩ := qualified
    obtain ⟨parsed, rejoined⟩ := parseFlatMcpToolName_of_reads _ reads
    have only : ∀ other more, ReadsQualified (nameSpace ++ "__" ++ name) other more →
        other = server ∧ more = rest := by
      intro other more again
      have same := (parseFlatMcpToolName_of_reads _ again).1.symm.trans parsed
      simpa [and_comm] using same
    have unregistered : ⟨rest, some ("mcp__" ++ server)⟩ ∈ registry.tools →
        (⟨name, some nameSpace⟩ : ToolName) = ⟨rest, some ("mcp__" ++ server)⟩ := by
      intro registered
      refine distinct _ mem _ registered ?_
      rw [flat, toWireName_qualified rest ("mcp__" ++ server) (by simp), rejoined]
    rw [parsed, resolveName_qualified_iff, rejoined]
    constructor
    · rintro (⟨-, same⟩ | ⟨-, spelled | ⟨-, -, spelled⟩⟩)
      · exact .inr ⟨server, rest, reads, .inl same⟩
      · exact .inl spelled
      · exact .inr ⟨server, rest, reads, .inr spelled⟩
    · intro recovered
      by_cases registered : ⟨rest, some ("mcp__" ++ server)⟩ ∈ registry.tools
      · exact .inl ⟨registered, unregistered registered⟩
      refine .inr ⟨registered, ?_⟩
      rcases recovered with spelled | ⟨other, more, again, same | joined⟩
      · exact .inl spelled
      · obtain ⟨rfl, rfl⟩ := only other more again
        exact absurd (same ▸ mem) registered
      · obtain ⟨rfl, rfl⟩ := only other more again
        by_cases spelled : Spells registry.tools (nameSpace ++ "__" ++ name) ⟨name, some nameSpace⟩
        · exact .inl spelled
        · refine .inr ⟨fun other alone => spelled ?_, by simp, joined⟩
          exact alone.2.2 _ mem own ▸ alone
  · have plain : ∀ server rest, ¬ReadsQualified (nameSpace ++ "__" ++ name) server rest :=
      fun server rest reads => qualified ⟨server, rest, reads⟩
    have absent : ⟨nameSpace ++ "__" ++ name, none⟩ ∉ registry.tools := by
      intro registered
      have same := distinct _ registered _ mem (by rw [flat]; rfl)
      simp at same
    rw [parseFlatMcpToolName_of_not_reads _ plain, resolveName_plain registry _ absent (by simp),
      lookupFlat_eq_some_iff, or_iff_left]
    exact fun ⟨server, rest, reads, _⟩ => plain server rest reads

/--
A tool with another flat name alone has a spelling of an inbound name: the flat
one, or the joined one where no tool is alone with the flat one.
-/
def Misspelled (tools : List ToolName) (name nameSpace : String) (tool : ToolName) : Prop :=
  tool.toWireName ≠ ToolName.toWireName ⟨name, some nameSpace⟩ ∧
    (Spells tools (nameSpace ++ "__" ++ name) tool ∨
      (∀ other, ¬Spells tools (nameSpace ++ "__" ++ name) other) ∧
        nameSpace ++ name ≠ "" ∧ Spells tools (nameSpace ++ name) tool)

/--
An inbound name with a namespace reaches no tool with another flat name if and
only if it is registered or no tool is misspelled by it, and the flat name of a
registered tool leads back to the tool exactly if a plain name does not read as
a server and a tool, and the flat name of a namespaced tool recovers it.
-/
theorem dispatch_right_iff (registry : ToolRegistry) :
    (∀ name nameSpace,
      (∀ tool, registry.resolveName ⟨name, some nameSpace⟩ = some tool →
          tool.toWireName = ToolName.toWireName ⟨name, some nameSpace⟩) ↔
        ⟨name, some nameSpace⟩ ∈ registry.tools ∨
          ∀ tool, ¬Misspelled registry.tools name nameSpace tool) ∧
    (FlatDistinct registry.tools → ∀ tool ∈ registry.tools,
      (tool.nameSpace = none →
        (registry.resolveName (parseFlatMcpToolName tool.toWireName) = some tool ↔
          ∀ server rest, ¬ReadsQualified tool.name server rest)) ∧
      (∀ nameSpace, tool.nameSpace = some nameSpace → startsWith nameSpace "mcp__" = true →
        (registry.resolveName (parseFlatMcpToolName tool.toWireName) = some tool ↔
          Recovered registry.tools tool))) := by
  refine ⟨fun name nameSpace => ?_, ?_⟩
  · simp only [resolveName_qualified_iff, Misspelled]
    by_cases registered : ⟨name, some nameSpace⟩ ∈ registry.tools
    · simp [registered]
    · simp only [registered, false_and, not_false_eq_true, true_and, false_or]
      exact forall_congr' fun tool => by rw [not_and', not_not]
  · intro distinct tool mem
    obtain ⟨name, toolSpace⟩ := tool
    constructor
    · rintro rfl
      exact resolveName_flat_plain_iff registry name mem
    · rintro nameSpace rfl marked
      have nonempty : nameSpace ≠ "" := by
        rintro rfl
        simp [startsWith] at marked
      rw [toWireName_qualified name nameSpace nonempty]
      exact resolveName_flat_qualified_iff registry name nameSpace distinct nonempty mem

def sampleRegistry : ToolRegistry := .new [⟨"ask", some "mcp__a"⟩, ⟨"run", none⟩]

/-- Both tools of the sample are found from their flat names. -/
theorem dispatch_right_sample :
    sampleRegistry.resolveName (parseFlatMcpToolName "mcp__a__ask") = some ⟨"ask", some "mcp__a"⟩ ∧
      sampleRegistry.resolveName (parseFlatMcpToolName "run") = some ⟨"run", none⟩ := by
  have dispatch := (dispatch_right_iff sampleRegistry).2 (by unfold FlatDistinct; decide +kernel)
  have remote := dispatch ⟨"ask", some "mcp__a"⟩ (by decide +kernel)
  have builtin := dispatch ⟨"run", none⟩ (by decide +kernel)
  refine ⟨(remote.2 "mcp__a" rfl (by decide +kernel)).mpr (.inl (by decide +kernel)),
    (builtin.1 rfl).mpr ?_⟩
  rintro server rest ⟨_, stripped, -⟩
  have unmarked : stripPrefix? "run" "mcp__" = none := by decide +kernel
  cases unmarked.symm.trans stripped

/--
A name with an explicit namespace can reach a tool with another flat name, and
a plain tool with a flat-looking name is not found from its own name.
-/
theorem resolveName_reaches_other_tool :
    (ToolRegistry.new [⟨"_baz", some "mcp__foobar"⟩]).resolveName ⟨"bar_baz", some "mcp__foo"⟩ =
      some ⟨"_baz", some "mcp__foobar"⟩ ∧
    ToolName.toWireName ⟨"_baz", some "mcp__foobar"⟩ ≠
      ToolName.toWireName ⟨"bar_baz", some "mcp__foo"⟩ ∧
    (ToolRegistry.new [⟨"mcp__a__ask", none⟩]).resolveName
        (parseFlatMcpToolName "mcp__a__ask") = none := by
  decide +kernel

end Codex.Tools.Registry
