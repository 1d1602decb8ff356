import Codex.Tools.WireNames
import Mathlib.Data.List.Nodup

/-!
# When a shortened tool name is restored

A model calls a tool by the name that was advertised for it.  Restoring looks
the namespace and name of the call, written together, up among the short forms.
-/

namespace Codex.Tools.NameRestoration

open Rust.Text Protocol.JsonValue Protocol.Models FlatNames WireNames List

variable (mapping : ToolNameMapping)

/-! ## Short forms -/

section Shortening

variable (sha256 : Sha256Hex) (name : String) (names : List String)

theorem truncateToolName_of_short (short : name.utf8ByteSize ≤ openaiMaxToolNameLength) :
    truncateToolName sha256 name = name := by
  rw [truncateToolName, if_pos short]

theorem length_truncateToolName_of_long (ascii : isAscii name = true)
    (long : openaiMaxToolNameLength < name.utf8ByteSize) :
    (truncateToolName sha256 name).length = openaiMaxToolNameLength := by
  have sized := utf8ByteSize_of_isAscii name ascii
  have digest := sha256.sized name
  rw [truncateToolName, if_neg (Nat.not_le.mpr long)]
  simp only [openaiMaxToolNameLength, toolNamePrefixLength,
    toolNameHashLength, String.length_append, String.length_ofList,
    length_take, String.length_toList] at long ⊢
  rw [sized] at long
  rw [digest]
  have front : min 55 name.length = 55 := by omega
  rw [front]
  rfl

/-- Shortening changes exactly the names above the cap. -/
theorem truncateToolName_ne_iff (ascii : isAscii name = true) :
    truncateToolName sha256 name ≠ name ↔ openaiMaxToolNameLength < name.utf8ByteSize := by
  constructor
  · intro changed
    by_contra short
    exact changed (truncateToolName_of_short sha256 name (Nat.not_lt.mp short))
  · intro long same
    have sized := length_truncateToolName_of_long sha256 name ascii long
    rw [same, ← utf8ByteSize_of_isAscii name ascii] at sized
    omega

theorem length_truncateToolName_le (ascii : isAscii name = true) :
    (truncateToolName sha256 name).length ≤ openaiMaxToolNameLength ∧
      (truncateToolName sha256 name).length ≤ name.length := by
  have sized := utf8ByteSize_of_isAscii name ascii
  by_cases short : name.utf8ByteSize ≤ openaiMaxToolNameLength
  · rw [truncateToolName_of_short sha256 name short]
    omega
  · have long := Nat.not_le.mp short
    rw [length_truncateToolName_of_long sha256 name ascii long]
    omega

/-! ## The mapping of a name list -/

theorem mem_toolNameMappingFrom (mapping : ToolNameMapping) (entry : String × String) :
    entry ∈ toolNameMappingFrom sha256 mapping names ↔ entry ∈ mapping ∨
        (entry.2 ∈ names ∧ truncateToolName sha256 entry.2 = entry.1 ∧ entry.1 ≠ entry.2) := by
  induction names generalizing mapping with
  | nil => simp [toolNameMappingFrom]
  | cons original names ih =>
    rw [toolNameMappingFrom, ih]
    obtain ⟨key, value⟩ := entry
    by_cases changed : truncateToolName sha256 original = original
    · simp only [changed, ne_eq, not_true_eq_false, if_false, mem_cons]
      constructor
      · rintro (old | ⟨listed, short, different⟩)
        · exact Or.inl old
        · exact Or.inr ⟨Or.inr listed, short, different⟩
      · rintro (old | ⟨rfl | listed, short, different⟩)
        · exact Or.inl old
        · exact absurd (short.symm.trans changed) different
        · exact Or.inr ⟨listed, short, different⟩
    · simp only [ne_eq, changed, not_false_eq_true, if_true, mem_cons, Prod.mk.injEq]
      constructor
      · rintro ((⟨rfl, rfl⟩ | old) | ⟨listed, short, different⟩)
        · exact Or.inr ⟨Or.inl rfl, rfl, changed⟩
        · exact Or.inl old
        · exact Or.inr ⟨Or.inr listed, short, different⟩
      · rintro (old | ⟨rfl | listed, short, different⟩)
        · exact Or.inl (Or.inr old)
        · exact Or.inl (Or.inl ⟨short.symm, rfl⟩)
        · exact Or.inr ⟨listed, short, different⟩

theorem mem_toolNameMapping (key original : String) :
    (key, original) ∈ toolNameMapping sha256 names ↔
      original ∈ names ∧ truncateToolName sha256 original = key ∧ key ≠ original := by
  rw [toolNameMapping, mem_toolNameMappingFrom]
  simp

theorem named_of_lookup {key original : String}
    (found : (toolNameMapping sha256 names).lookup key = some original) :
    original ∈ names ∧ truncateToolName sha256 original = key ∧ key ≠ original := by
  obtain ⟨before, after, split, -⟩ := lookup_eq_some_iff.mp found
  rw [← mem_toolNameMapping, split]
  simp

theorem restoreOriginalToolName_of_fresh {text : String} (fresh : ∀ original ∈ names,
      truncateToolName sha256 original ≠ original → truncateToolName sha256 original ≠ text) :
    restoreOriginalToolName text (toolNameMapping sha256 names) = text := by
  cases found : (toolNameMapping sha256 names).lookup text with
  | none => rw [restoreOriginalToolName, found, Option.getD_none]
  | some original =>
    obtain ⟨listed, short, different⟩ := named_of_lookup sha256 names found
    rw [← short] at different
    exact absurd short (fresh original listed different)

theorem restoreOriginalToolName_of_mem (distinct : (names.map (truncateToolName sha256)).Nodup)
    {name : String} (listed : name ∈ names) :
    restoreOriginalToolName (truncateToolName sha256 name)
      (toolNameMapping sha256 names) = name := by
  have injective := inj_on_of_nodup_map distinct
  cases found : (toolNameMapping sha256 names).lookup (truncateToolName sha256 name) with
  | some original =>
    obtain ⟨mem, short, -⟩ := named_of_lookup sha256 names found
    rw [restoreOriginalToolName, found, Option.getD_some]
    exact injective mem listed short
  | none =>
    rw [restoreOriginalToolName, found, Option.getD_none]
    by_contra changed
    have entry := (mem_toolNameMapping sha256 names _ name).mpr ⟨listed, rfl, changed⟩
    have missing := List.lookup_eq_none_iff.mp found _ entry
    simp at missing

end Shortening

/-! ## Restoring one call -/

def callSpelling : ResponseItem → Option String
  | .functionCall _ name nameSpace _ _ => some (nameSpace.getD "" ++ name)
  | _ => none

theorem callSpelling_restoreOriginalToolNamesInItem
    (id : Option String) (name : String) (nameSpace : Option String)
    (args callId : String) (mapping : ToolNameMapping) :
    callSpelling (restoreOriginalToolNamesInItem
          (.functionCall id name nameSpace args callId) mapping) =
      some (restoreOriginalToolName (nameSpace.getD "" ++ name) mapping) := by
  by_cases empty : mapping.isEmpty = true
  · have noEntries : mapping = [] := List.isEmpty_iff.mp empty
    subst noEntries
    rfl
  · rw [restoreOriginalToolNamesInItem, if_neg empty]
    simp only [callSpelling, Option.some.injEq]
    cases nameSpace with
    | none => simp [restoreCallName]
    | some outer =>
      simp only [restoreCallName, Option.getD_some]
      cases stripped : stripPrefix? (restoreOriginalToolName (outer ++ name) mapping) outer with
      | none => simp
      | some rest => exact (stripPrefix?_eq_some _ outer rest stripped).symm

variable {declared : Declared}

/-! ## What each wire advertises -/

section Advertised

variable (sha256 : Sha256Hex)

def shortened (declared : Declared) : Declared :=
  { declared with name := truncateToolName sha256 declared.name }

theorem flatMap_of_mapM {Source Target Part : Type}
    {convert : Source → Option Target} (partsOf : Target → List Part)
    (expected : Source → List Part)
    (agree : ∀ source target, convert source = some target → partsOf target = expected source)
    {sources : List Source} (targets : List Target)
    (converted : sources.mapM convert = some targets) :
    targets.flatMap partsOf = sources.flatMap expected := by
  induction sources generalizing targets with
  | nil =>
    simp only [mapM_nil, Option.pure_def, Option.some.injEq] at converted
    simp [← converted]
  | cons source sources ih =>
    simp only [mapM_cons, Option.bind_eq_bind,
      Option.bind_eq_some_iff, Option.pure_def, Option.some.injEq]
      at converted
    obtain ⟨target, first, rest, later, rfl⟩ := converted
    rw [flatMap_cons, flatMap_cons, agree source target first, ih rest later]

theorem declared_prepareToolSpec (ensureOpenaiStrict : Value → Option Value) (tool sent : ToolSpec)
    (prepared : prepareToolSpec sha256 ensureOpenaiStrict tool = some sent) :
    sent.declared = tool.declared.map (shortened sha256) := by
  cases tool with
  | function tool =>
    obtain ⟨ready, inner, rfl⟩ := Option.map_eq_some_iff.mp prepared
    simp only [prepareResponsesApiTool, Option.bind_eq_bind,
      Option.bind_eq_some_iff, Option.pure_def, Option.some.injEq]
      at inner
    obtain ⟨parameters, -, rfl⟩ := inner
    rfl
  | nameSpace members =>
    obtain ⟨ready, inner, rfl⟩ := Option.map_eq_some_iff.mp prepared
    have names := flatMap_of_mapM (fun tool => [(⟨some members.name, tool.name⟩ : Declared)])
      (fun tool => [⟨some members.name, truncateToolName sha256 tool.name⟩])
      (by
        intro tool ready single
        simp only [prepareResponsesApiTool, Option.bind_eq_bind,
          Option.bind_eq_some_iff, Option.pure_def, Option.some.injEq]
          at single
        obtain ⟨parameters, -, rfl⟩ := single
        rfl) ready inner
    simpa [ToolSpec.declared, ← map_eq_flatMap, shortened, Function.comp_def] using names
  | toolSearch | imageGeneration | webSearch | freeform => cases prepared; rfl

theorem declaredFunctions_prepareResponsesWireTools
    {ensureOpenaiStrict : Value → Option Value} {tools sent : List ToolSpec}
    {mapping : ToolNameMapping}
    (prepared : prepareResponsesWireTools sha256 ensureOpenaiStrict tools = some (sent, mapping)) :
    declaredFunctions sent = (declaredFunctions tools).map (shortened sha256) ∧
      mapping = toolNameMapping sha256 (responsesWireToolNames tools) := by
  obtain ⟨ready, inner, pair⟩ := Option.map_eq_some_iff.mp prepared
  obtain ⟨rfl, rfl⟩ := Prod.mk.inj pair
  refine ⟨?_, rfl⟩
  have parts := flatMap_of_mapM ToolSpec.declared (fun tool => tool.declared.map (shortened sha256))
    (declared_prepareToolSpec sha256 ensureOpenaiStrict) ready inner
  rw [declaredFunctions, parts, declaredFunctions, map_flatMap]

theorem mem_responsesWireToolNames (tools : List ToolSpec) (name : String) :
    name ∈ responsesWireToolNames tools ↔
      ∃ declared ∈ declaredFunctions tools, declared.name = name := by
  simp only [responsesWireToolNames, declaredFunctions, mem_flatMap]
  constructor
  · rintro ⟨tool, listed, mem⟩
    cases tool with
    | function tool =>
      have same : name = tool.name := mem_singleton.mp mem
      exact ⟨⟨none, tool.name⟩, ⟨_, listed, mem_singleton_self _⟩, same.symm⟩
    | nameSpace members =>
      obtain ⟨inner, inside, rfl⟩ := mem_map.mp mem
      exact ⟨⟨some members.name, inner.name⟩, ⟨_, listed, mem_map.mpr ⟨inner, inside, rfl⟩⟩, rfl⟩
    | _ => cases mem
  · rintro ⟨declared, ⟨tool, listed, mem⟩, rfl⟩
    refine ⟨tool, listed, ?_⟩
    cases tool with
    | function tool =>
      cases mem_singleton.mp mem
      exact mem_singleton_self _
    | nameSpace members =>
      obtain ⟨inner, inside, rfl⟩ := mem_map.mp mem
      exact mem_map.mpr ⟨inner, inside, rfl⟩
    | _ => cases mem

/-- Each declared function with the Gemini declaration that stands for it. -/
def geminiAdvertised (sanitizeForGemini : Value → Value)
    (tools : List ToolSpec) : List (Declared × FunctionDeclaration) :=
  tools.flatMap fun tool => tool.declared.zip (tool.geminiDeclarations sha256 sanitizeForGemini)

/-- Every declared function has a declaration, sent under its short form. -/
theorem map_geminiAdvertised (sanitizeForGemini : Value → Value) (tools : List ToolSpec) :
    (geminiAdvertised sha256 sanitizeForGemini tools).map (fun entry => (entry.1, entry.2.name)) =
      (declaredFunctions tools).map fun declared =>
        (declared, truncateToolName sha256 declared.spelling) := by
  simp only [geminiAdvertised, declaredFunctions, map_flatMap]
  congr 1
  funext tool
  cases tool with
  | nameSpace members =>
    simp only [ToolSpec.declared, ToolSpec.geminiDeclarations]
    rw [zip_map', map_map, map_map]
    rfl
  | function tool => simp [ToolSpec.declared, ToolSpec.geminiDeclarations, Declared.spelling]
  | _ => rfl

theorem spelling_mem_geminiWireToolNames {tools : List ToolSpec}
    (listed : declared ∈ declaredFunctions tools) :
    declared.spelling ∈ geminiWireToolNames tools := by
  obtain ⟨tool, mem, inside⟩ := mem_flatMap.mp listed
  refine mem_flatMap.mpr ⟨tool, mem, ?_⟩
  cases tool with
  | function tool =>
    cases mem_singleton.mp inside
    simp [ToolSpec.geminiNames, Declared.spelling]
  | nameSpace members =>
    obtain ⟨inner, within, rfl⟩ := mem_map.mp inside
    exact mem_map.mpr ⟨inner, within, rfl⟩
  | _ => cases inside

end Advertised

/-! ## Restoring what was advertised -/

section Restored

variable (sha256 : Sha256Hex)

/--
Calling the advertised function, with its namespace reported separately, is
restored to a call that spells the declared one.
-/
def RestoredOnResponses (declared advertised : Declared) : Prop :=
  ∀ id args callId, callSpelling (restoreOriginalToolNamesInItem
          (.functionCall id advertised.name advertised.nameSpace args callId)
          mapping) =
      some declared.spelling

/--
Calling the advertised flat name, which the stream reader splits, is restored
to a call that spells the declared one.
-/
def RestoredOnGemini (declared : Declared) (advertised : String) : Prop :=
  ∀ id args callId, callSpelling (restoreOriginalToolNamesInItem
          (.functionCall id (parseFlatMcpToolName advertised).name
            (parseFlatMcpToolName advertised).nameSpace args callId)
          mapping) =
      some declared.spelling

/--
A function outside a namespace is always found.  Under a nonempty namespace
the name must need no shortening, and the joined name must not be a short form
of another tool.
-/
def FoundOnResponses (names : List String) (declared : Declared) : Prop :=
  match declared.nameSpace with
  | none => True
  | some nameSpace =>
    nameSpace = "" ∨ (declared.name.utf8ByteSize ≤ openaiMaxToolNameLength ∧
        ∀ other ∈ names, openaiMaxToolNameLength < other.utf8ByteSize →
          truncateToolName sha256 other ≠ nameSpace ++ declared.name)

/-- The stream reader takes the advertised flat name as one whole. -/
def FoundOnGemini (declared : Declared) : Prop := (parseFlatMcpToolName
    (truncateToolName sha256 declared.spelling)).nameSpace = none

variable {names : List String} (ascii : ∀ name ∈ names, isAscii name = true)
  (distinct : (names.map (truncateToolName sha256)).Nodup)
include ascii distinct

theorem restoredOnResponses_iff (listed : declared.name ∈ names) :
    RestoredOnResponses (toolNameMapping sha256 names) declared (shortened sha256 declared) ↔
      FoundOnResponses sha256 names declared := by
  obtain ⟨nameSpace, name⟩ := declared
  have reduced : RestoredOnResponses (toolNameMapping sha256 names)
      ⟨nameSpace, name⟩ (shortened sha256 ⟨nameSpace, name⟩) ↔ restoreOriginalToolName
            (nameSpace.getD "" ++ truncateToolName sha256 name)
            (toolNameMapping sha256 names) =
          nameSpace.getD "" ++ name := by
    simp only [RestoredOnResponses, shortened, Declared.spelling,
      callSpelling_restoreOriginalToolNamesInItem, Option.some.injEq,
      forall_const]
  rw [reduced]
  have own := restoreOriginalToolName_of_mem sha256 names distinct listed
  cases nameSpace with
  | none => simpa [FoundOnResponses] using own
  | some outer =>
    simp only [FoundOnResponses, Option.getD_some]
    by_cases unnamed : outer = ""
    · subst unnamed
      simpa using own
    · have nonempty : 0 < outer.length := by
        rw [Nat.pos_iff_ne_zero, Ne, String.length_eq_zero_iff]
        exact unnamed
      by_cases short : name.utf8ByteSize ≤ openaiMaxToolNameLength
      · rw [truncateToolName_of_short sha256 name short]
        constructor
        · intro restored
          refine Or.inr ⟨short, fun other mem long same => ?_⟩
          have changed := (truncateToolName_ne_iff sha256 other (ascii other mem)).mpr long
          rw [← same, restoreOriginalToolName_of_mem sha256 names distinct mem] at restored
          exact changed restored.symm
        · rintro (empty | ⟨-, fresh⟩)
          · exact absurd empty unnamed
          · refine restoreOriginalToolName_of_fresh sha256 names ?_
            intro other mem changed
            exact fresh other mem ((truncateToolName_ne_iff sha256
              other (ascii other mem)).mp changed)
      · have long := Nat.not_le.mp short
        have filled := length_truncateToolName_of_long sha256 name (ascii name listed) long
        -- The key is longer than the cap, so it is no short form.
        have untouched : restoreOriginalToolName (outer ++ truncateToolName sha256 name)
            (toolNameMapping sha256 names) = outer ++ truncateToolName sha256 name := by
          refine restoreOriginalToolName_of_fresh sha256 names ?_
          intro other mem changed same
          have capped := (length_truncateToolName_le sha256 other (ascii other mem)).1
          rw [same, String.length_append, filled] at capped
          omega
        rw [untouched]
        constructor
        · intro same
          have kept : truncateToolName sha256 name = name := by simpa using same
          exact absurd kept ((truncateToolName_ne_iff sha256 name (ascii name listed)).mpr long)
        · rintro (empty | ⟨fits, -⟩)
          · exact absurd empty unnamed
          · exact absurd fits short

theorem restoredOnGemini_iff (listed : declared.spelling ∈ names) :
    RestoredOnGemini (toolNameMapping sha256 names) declared
        (truncateToolName sha256 declared.spelling) ↔
      FoundOnGemini sha256 declared := by
  simp only [RestoredOnGemini, FoundOnGemini,
    callSpelling_restoreOriginalToolNamesInItem, Option.some.injEq,
    forall_const]
  rcases parseFlatMcpToolName_cases (truncateToolName sha256 declared.spelling) with
    whole | ⟨nameSpace, tool, split, -, joined⟩
  · have own := restoreOriginalToolName_of_mem sha256 names distinct listed
    simpa [whole] using own
  · -- The split drops the delimiter, so the key is two bytes too short.
    have capped := length_truncateToolName_le sha256 declared.spelling (ascii _ listed)
    have shorter : (nameSpace ++ tool).length + 2 =
        (truncateToolName sha256 declared.spelling).length := by
      rw [← joined]
      simp only [String.length_append]
      have delimiter : "__".length = 2 := rfl
      omega
    have untouched : restoreOriginalToolName (nameSpace ++ tool)
        (toolNameMapping sha256 names) = nameSpace ++ tool := by
      refine restoreOriginalToolName_of_fresh sha256 names ?_
      intro other mem changed same
      have filled := length_truncateToolName_of_long sha256 other
        (ascii other mem) ((truncateToolName_ne_iff sha256 other
          (ascii other mem)).mp changed)
      rw [same] at filled
      omega
    simp only [split, Option.getD_some, untouched, reduceCtorEq, iff_false]
    intro same
    rw [same] at shorter
    omega

omit ascii distinct

/--
Which advertised names are restored, on either wire: exactly the functions
that `FoundOnResponses` and `FoundOnGemini` describe.
-/
theorem advertised_names_restored_iff (ensureOpenaiStrict : Value → Option Value)
    (sanitizeForGemini : Value → Value) (tools : List ToolSpec) :
    (∀ sent mapping,
      prepareResponsesWireTools sha256 ensureOpenaiStrict tools = some (sent, mapping) →
        (∀ name ∈ responsesWireToolNames tools, isAscii name = true) →
        ((responsesWireToolNames tools).map (truncateToolName sha256)).Nodup →
        (List.Forall₂ (RestoredOnResponses mapping)
            (declaredFunctions tools) (declaredFunctions sent) ↔
          ∀ declared ∈ declaredFunctions tools,
            FoundOnResponses sha256 (responsesWireToolNames tools) declared)) ∧
      ((∀ name ∈ geminiWireToolNames tools, isAscii name = true) →
        ((geminiWireToolNames tools).map (truncateToolName sha256)).Nodup →
        ((∀ entry ∈ geminiAdvertised sha256 sanitizeForGemini tools,
            RestoredOnGemini (toolNameMapping sha256 (geminiWireToolNames tools))
              entry.1 entry.2.name) ↔
          ∀ declared ∈ declaredFunctions tools, FoundOnGemini sha256 declared)) := by
  constructor
  · intro sent mapping prepared ascii distinct
    obtain ⟨advertised, rfl⟩ := declaredFunctions_prepareResponsesWireTools
      sha256 prepared
    rw [advertised, forall₂_map_right_iff, forall₂_same]
    refine forall₂_congr fun declared listed => ?_
    exact restoredOnResponses_iff sha256 ascii distinct
      ((mem_responsesWireToolNames tools declared.name).mpr ⟨declared, listed, rfl⟩)
  · intro ascii distinct
    have paired := map_geminiAdvertised sha256 sanitizeForGemini tools
    calc (∀ entry ∈ geminiAdvertised sha256 sanitizeForGemini tools,
            RestoredOnGemini (toolNameMapping sha256 (geminiWireToolNames tools))
              entry.1 entry.2.name)
        ↔ ∀ entry ∈ (geminiAdvertised sha256 sanitizeForGemini tools).map
            (fun entry => (entry.1, entry.2.name)),
            RestoredOnGemini (toolNameMapping sha256 (geminiWireToolNames tools))
              entry.1 entry.2 := by
          rw [forall_mem_map]
      _ ↔ ∀ declared ∈ declaredFunctions tools, RestoredOnGemini
              (toolNameMapping sha256 (geminiWireToolNames tools))
              declared (truncateToolName sha256 declared.spelling) := by
          rw [paired, forall_mem_map]
      _ ↔ ∀ declared ∈ declaredFunctions tools, FoundOnGemini sha256 declared := by
          refine forall₂_congr fun declared listed => ?_
          exact restoredOnGemini_iff sha256 ascii distinct (spelling_mem_geminiWireToolNames listed)

end Restored

/-! ## Sample tool lists -/

def overlongName : String := String.ofList (List.replicate 65 'a')

/-- A digest that agrees with SHA-256 on `overlongName`. -/
def sampleSha256 : Sha256Hex where
  hex _ := "635361c48bb9eab14198e76ea8ab7f1a41685d6ad62aa9146d301d4f17eb0ae0"
  sized _ := by decide +kernel

def sampleTool (name : String) : ResponsesApiTool := ⟨name, "", false, .object []⟩

def restoredTools : List ToolSpec := [.function (sampleTool overlongName),
   .nameSpace ⟨"calendar_", "", [sampleTool "read"]⟩]

def overlongInNamespace : List ToolSpec := [.nameSpace ⟨"calendar_", "", [sampleTool overlongName]⟩]

def serverTools : List ToolSpec := [.nameSpace ⟨"mcp__srv__", "", [sampleTool "read"]⟩]

theorem advertised_names_restored_sample : (∃ sent mapping,
      prepareResponsesWireTools sampleSha256 some restoredTools = some (sent, mapping) ∧
        List.Forall₂ (RestoredOnResponses mapping)
          (declaredFunctions restoredTools) (declaredFunctions sent)) ∧
      ∀ entry ∈ geminiAdvertised sampleSha256 id restoredTools, RestoredOnGemini
          (toolNameMapping sampleSha256 (geminiWireToolNames restoredTools))
          entry.1 entry.2.name := by
  have general := advertised_names_restored_iff sampleSha256 some id restoredTools
  refine ⟨⟨_, _, rfl, ?_⟩, ?_⟩
  · refine (general.1 _ _ rfl (by decide +kernel) (by decide +kernel)).mpr ?_
    intro declared listed
    have cases : declared = ⟨none, overlongName⟩ ∨ declared = ⟨some "calendar_", "read"⟩ := by
      simpa [restoredTools, declaredFunctions, ToolSpec.declared, sampleTool] using listed
    rcases cases with rfl | rfl
    · trivial
    · exact Or.inr ⟨by decide +kernel, by decide +kernel⟩
  · refine (general.2 (by decide +kernel) (by decide +kernel)).mpr ?_
    unfold FoundOnGemini
    decide +kernel

/--
An overlong name under a namespace comes back shortened on the Responses wire,
and a server's tool loses its delimiter on the Gemini wire.
-/
theorem namespaced_names_not_restored : (∃ sent mapping,
      prepareResponsesWireTools sampleSha256 some overlongInNamespace = some (sent, mapping) ∧
        (∀ name ∈ responsesWireToolNames overlongInNamespace, isAscii name = true) ∧
        ((responsesWireToolNames overlongInNamespace).map (truncateToolName sampleSha256)).Nodup ∧
        ¬ List.Forall₂ (RestoredOnResponses mapping) (declaredFunctions overlongInNamespace)
          (declaredFunctions sent)) ∧
      ((∀ name ∈ geminiWireToolNames serverTools, isAscii name = true) ∧
        ((geminiWireToolNames serverTools).map (truncateToolName sampleSha256)).Nodup ∧
        ¬ ∀ entry ∈ geminiAdvertised sampleSha256 id serverTools, RestoredOnGemini
            (toolNameMapping sampleSha256 (geminiWireToolNames serverTools))
            entry.1 entry.2.name) := by
  refine ⟨⟨_, _, rfl, by decide +kernel, by decide +kernel, ?_⟩,
    by decide +kernel, by decide +kernel, ?_⟩
  · intro restored
    cases restored with
    | cons first rest =>
      have spelled := first none "\x7b\x7d" "call_1"
      revert spelled
      decide +kernel
  · intro restored
    have spelled := restored (⟨some "mcp__srv__", "read"⟩, ⟨"mcp__srv__read", "", .object []⟩)
      (by decide +kernel) none "\x7b\x7d" "call_1"
    revert spelled
    decide +kernel

end Codex.Tools.NameRestoration
