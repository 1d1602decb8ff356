import Codex.Mcp.ToolNames
import Codex.Tools.FlatNames
import Mathlib

/-!
# What naming MCP tools guarantees

Every distinct tool is returned once, under a namespace and a name of plain
characters that fit the cap together.  The last loop keeps the texts in
`used_names` distinct, which are the namespace and the name written together
without the delimiter.  The wires join them with two underscores, and two
different pairs can then read the same.
-/

namespace Codex.Mcp.UniqueNames

open Rust.Text Library ToolNames Tools.FlatNames List

/-! ## Texts of name characters -/

def NameText (text : String) : Prop := text.toList.all isNameCharacter = true

theorem nameText_append (left right : String) :
    NameText (left ++ right) ↔ NameText left ∧ NameText right := by
  rw [NameText, String.toList_append, all_append, Bool.and_eq_true]
  rfl

theorem nameText_take {text : String} (count : Nat) (named : NameText text) :
    NameText (String.ofList (text.toList.take count)) := by
  rw [NameText, all_eq_true] at named ⊢
  intro char mem
  rw [String.toList_ofList] at mem
  exact named char (mem_of_mem_take mem)

theorem isAscii_of_nameText {text : String} (named : NameText text) : isAscii text = true := by
  rw [isAscii, all_eq_true]
  intro char mem
  have allowed := all_eq_true.mp named char mem
  rw [decide_eq_true_eq]
  simp only [isNameCharacter, Char.isAlphanum, Char.isAlpha, Char.isUpper,
    Char.isLower, Char.isDigit, Bool.or_eq_true, Bool.and_eq_true,
    decide_eq_true_eq, beq_iff_eq, ge_iff_le, UInt32.le_iff_toNat_le]
    at allowed
  rcases allowed with ((upper | lower) | digit) | rfl
  · exact Nat.lt_of_le_of_lt upper.2 (by decide)
  · exact Nat.lt_of_le_of_lt lower.2 (by decide)
  · exact Nat.lt_of_le_of_lt digit.2 (by decide)
  · decide

theorem utf8ByteSize_of_nameText {text : String} (named : NameText text) :
    text.utf8ByteSize = text.length :=
  utf8ByteSize_of_isAscii text (isAscii_of_nameText named)

theorem nameText_sanitize (name : String) : NameText (sanitizeResponsesApiToolName name) ∧
      sanitizeResponsesApiToolName name ≠ "" := by
  rw [sanitizeResponsesApiToolName]
  split
  next => exact ⟨rfl, by decide⟩
  next nonempty =>
    constructor
    · rw [NameText, all_eq_true]
      intro char mem
      rw [String.toList_ofList] at mem
      obtain ⟨original, -, rfl⟩ := mem_map.mp mem
      by_cases allowed : isNameCharacter original = true
      · rw [if_pos allowed]
        exact allowed
      · rw [if_neg allowed]
        decide
    · intro empty
      rw [String.ofList_eq_empty_iff] at empty
      exact nonempty (List.isEmpty_iff.mpr empty)

theorem append_ne_empty_left (left right : String) (nonempty : left ≠ "") : left ++ right ≠ "" := by
  intro empty
  exact nonempty (String.append_eq_empty_iff.mp empty).1

theorem append_ne_empty_right (left right : String) (nonempty : right ≠ "") :
    left ++ right ≠ "" := by
  intro empty
  exact nonempty (String.append_eq_empty_iff.mp empty).2

theorem nameText_callableNamespaceWithPrefix {nameSpace : String}
    (prefixMcpToolNames : Bool) (named : NameText nameSpace) (nonempty : nameSpace ≠ "") :
    NameText (callableNamespaceWithPrefix nameSpace prefixMcpToolNames) ∧
      callableNamespaceWithPrefix nameSpace prefixMcpToolNames ≠ "" := by
  rw [callableNamespaceWithPrefix]
  split
  next => exact ⟨named, nonempty⟩
  next => exact ⟨(nameText_append _ _).mpr ⟨rfl, named⟩, append_ne_empty_right _ _ nonempty⟩

/-! ## Digest suffixes -/

section Naming

variable (sha1 : Sha1Hex) (rawIdentity : String)

theorem length_hashDigits : (hashDigits sha1 rawIdentity).length = callableNameHashLen := by
  rw [hashDigits, String.length_ofList, length_take, String.length_toList, sha1.sized]
  rfl

theorem nameText_callableNameHashSuffix : NameText (callableNameHashSuffix sha1 rawIdentity) := by
  refine (nameText_append _ _).mpr ⟨rfl, ?_⟩
  exact nameText_take _ (all_eq_true.mpr (sha1.digits rawIdentity))

theorem callableNameHashSuffix_ne_empty : callableNameHashSuffix sha1 rawIdentity ≠ "" :=
  append_ne_empty_left _ _ (by decide)

theorem length_callableNameHashSuffix : (callableNameHashSuffix sha1 rawIdentity).length = 13 := by
  rw [callableNameHashSuffix, String.length_append, length_hashDigits]
  rfl

theorem utf8ByteSize_callableNameHashSuffix :
    (callableNameHashSuffix sha1 rawIdentity).utf8ByteSize = 13 := by
  rw [utf8ByteSize_of_nameText (nameText_callableNameHashSuffix sha1 rawIdentity),
    length_callableNameHashSuffix]

theorem nameText_appendHashSuffix {value : String} (rawIdentity : String) (named : NameText value) :
    NameText (appendHashSuffix sha1 value rawIdentity) ∧
      appendHashSuffix sha1 value rawIdentity ≠ "" :=
  ⟨(nameText_append _ _).mpr ⟨named, nameText_callableNameHashSuffix sha1 rawIdentity⟩,
    append_ne_empty_right _ _ (callableNameHashSuffix_ne_empty sha1 rawIdentity)⟩

theorem nameText_appendNamespaceHashSuffix {nameSpace : String} (rawIdentity : String)
    (named : NameText nameSpace) :
    NameText (appendNamespaceHashSuffix sha1 nameSpace rawIdentity) ∧
      appendNamespaceHashSuffix sha1 nameSpace rawIdentity ≠ "" := by
  rw [appendNamespaceHashSuffix]
  split
  next =>
    have front := (nameText_append _ _).mpr ⟨nameText_take (nameSpace.length - 2) named,
        nameText_callableNameHashSuffix sha1 rawIdentity⟩
    exact ⟨(nameText_append _ _).mpr ⟨front, rfl⟩, append_ne_empty_right _ _ (by decide)⟩
  next => exact nameText_appendHashSuffix sha1 rawIdentity named

/-! ## Candidates -/

/-- What holds of a candidate through all the loops. -/
structure WellNamed (tools : List ToolInfo)
    (candidate : CallableToolCandidate) : Prop where
  listed : candidate.tool ∈ tools
  identity : candidate.rawToolIdentity = rawToolIdentity candidate.tool
  nameSpaceText : NameText candidate.callableNamespace
  nameSpaceNonempty : candidate.callableNamespace ≠ ""
  nameText : NameText candidate.callableName

variable (tools : List ToolInfo)

theorem wellNamed_candidateOf {tool : ToolInfo}
    (prefixMcpToolNames : Bool) (listed : tool ∈ tools) :
    WellNamed tools (candidateOf prefixMcpToolNames tool) := by
  obtain ⟨spaceText, spaceNonempty⟩ := nameText_sanitize tool.callableNamespace
  obtain ⟨named, nonempty⟩ := nameText_callableNamespaceWithPrefix
    prefixMcpToolNames spaceText spaceNonempty
  exact
    { listed := listed
      identity := rfl
      nameSpaceText := named
      nameSpaceNonempty := nonempty
      nameText := (nameText_sanitize tool.callableName).1 }

variable (prefixMcpToolNames : Bool)

/-- The first loop keeps one candidate for each identity not seen before. -/
theorem candidatesFrom_spec (tools : List ToolInfo) (seen : List String) :
    (∀ candidate ∈ candidatesFrom prefixMcpToolNames seen tools,
      WellNamed tools candidate ∧ candidate.rawToolIdentity ∉ seen) ∧
      ((candidatesFrom prefixMcpToolNames seen tools).map (·.rawToolIdentity)).Nodup ∧
      ∀ tool ∈ tools, rawToolIdentity tool ∈ seen ∨ rawToolIdentity tool ∈
          (candidatesFrom prefixMcpToolNames seen tools).map (·.rawToolIdentity) := by
  induction tools generalizing seen with
  | nil => simp [candidatesFrom]
  | cons tool tools ih =>
    have widen : ∀ candidate, WellNamed tools candidate →
        WellNamed (tool :: tools) candidate := fun candidate known =>
      { known with listed := mem_cons_of_mem _ known.listed }
    by_cases known : rawToolIdentity tool ∈ seen
    · obtain ⟨members, distinct, covered⟩ := ih seen
      simp only [candidatesFrom, if_pos known]
      refine ⟨?_, distinct, ?_⟩
      · intro candidate mem
        exact ⟨widen candidate (members candidate mem).1, (members candidate mem).2⟩
      · intro other mem
        rcases mem_cons.mp mem with rfl | later
        · exact Or.inl known
        · exact covered other later
    · obtain ⟨members, distinct, covered⟩ := ih (rawToolIdentity tool :: seen)
      simp only [candidatesFrom, if_neg known]
      refine ⟨?_, ?_, ?_⟩
      · intro candidate mem
        rcases mem_cons.mp mem with rfl | later
        · exact ⟨wellNamed_candidateOf _ prefixMcpToolNames mem_cons_self, known⟩
        · exact ⟨widen candidate (members candidate later).1, fun old =>
            (members candidate later).2 (mem_cons_of_mem _ old)⟩
      · rw [map_cons, nodup_cons]
        refine ⟨?_, distinct⟩
        intro repeated
        obtain ⟨candidate, later, same⟩ := mem_map.mp repeated
        exact (members candidate later).2 (same ▸ mem_cons_self)
      · intro other mem
        rw [map_cons, mem_cons]
        rcases mem_cons.mp mem with rfl | later
        · exact Or.inr (Or.inl rfl)
        · rcases covered other later with old | found
          · rcases mem_cons.mp old with same | seenBefore
            · exact Or.inr (Or.inl same)
            · exact Or.inl seenBefore
          · exact Or.inr (Or.inr found)

theorem separateNamespaces_spec {candidates : List CallableToolCandidate}
    (wellNamed : ∀ candidate ∈ candidates, WellNamed tools candidate) :
    (separateNamespaces sha1 candidates).map (·.rawToolIdentity) =
        candidates.map (·.rawToolIdentity) ∧
      ∀ candidate ∈ separateNamespaces sha1 candidates, WellNamed tools candidate := by
  simp only [separateNamespaces]
  constructor
  · rw [map_map]
    refine map_congr_left fun candidate _ => ?_
    simp only [Function.comp_apply]
    split <;> rfl
  · intro candidate mem
    obtain ⟨original, listed, rfl⟩ := mem_map.mp mem
    have known := wellNamed original listed
    split
    · obtain ⟨named, nonempty⟩ := nameText_appendNamespaceHashSuffix sha1
        original.rawNamespaceIdentity known.nameSpaceText
      exact { known with
        nameSpaceText := named
        nameSpaceNonempty := nonempty }
    · exact known

theorem separateTools_spec {candidates : List CallableToolCandidate}
    (wellNamed : ∀ candidate ∈ candidates, WellNamed tools candidate) :
    (separateTools sha1 candidates).map (·.rawToolIdentity) = candidates.map (·.rawToolIdentity) ∧
      ∀ candidate ∈ separateTools sha1 candidates, WellNamed tools candidate := by
  simp only [separateTools]
  constructor
  · rw [map_map]
    refine map_congr_left fun candidate _ => ?_
    simp only [Function.comp_apply]
    split <;> rfl
  · intro candidate mem
    obtain ⟨original, listed, rfl⟩ := mem_map.mp mem
    have known := wellNamed original listed
    split
    · exact { known with
        nameText := (nameText_appendHashSuffix sha1 original.rawToolIdentity known.nameText).1 }
    · exact known

theorem sortedCandidates_spec : (∀ candidate ∈ sortedCandidates sha1 tools prefixMcpToolNames,
      WellNamed tools candidate) ∧
      ((sortedCandidates sha1 tools prefixMcpToolNames).map (·.rawToolIdentity)).Nodup ∧
      (∀ tool ∈ tools, rawToolIdentity tool ∈ (sortedCandidates sha1 tools prefixMcpToolNames).map
          (·.rawToolIdentity)) := by
  obtain ⟨members, distinct, covered⟩ := candidatesFrom_spec prefixMcpToolNames tools []
  obtain ⟨sameSpaces, spaces⟩ := separateNamespaces_spec sha1 tools
    (fun candidate mem => (members candidate mem).1)
  obtain ⟨sameTools, named⟩ := separateTools_spec sha1 tools spaces
  have identities := sameTools.trans sameSpaces
  have sorted := perm_insertionSort (fun left right : CallableToolCandidate =>
      left.rawToolIdentity ≤ right.rawToolIdentity)
    (separateTools sha1 (separateNamespaces sha1 (candidatesFrom prefixMcpToolNames [] tools)))
  refine ⟨?_, ?_, ?_⟩
  · intro candidate mem
    exact named candidate (sorted.mem_iff.mp mem)
  · refine ((sorted.map _).nodup_iff).mpr ?_
    rw [identities]
    exact distinct
  · intro tool listed
    refine ((sorted.map _).mem_iff).mpr ?_
    rw [identities]
    simpa using covered tool listed

theorem length_sortedCandidates_le : (sortedCandidates sha1 tools prefixMcpToolNames).length ≤
      tools.length := by
  obtain ⟨members, distinct, -⟩ := sortedCandidates_spec sha1 tools prefixMcpToolNames
  have listed : (sortedCandidates sha1 tools prefixMcpToolNames).map (·.rawToolIdentity) ⊆
      tools.map rawToolIdentity := by
    intro identity mem
    obtain ⟨candidate, inList, rfl⟩ := mem_map.mp mem
    have known := members candidate inList
    exact known.identity ▸ mem_map_of_mem known.listed
  simpa using (distinct.subperm listed).length_le

/-! ## Fitting under the cap -/

/-- Parts of name characters that fit the cap with their delimiter. -/
structure Fitting (parts : String × String) : Prop where
  nameSpaceText : NameText parts.1
  nameSpaceNonempty : parts.1 ≠ ""
  nameText : NameText parts.2
  sized : parts.1.length + 2 + parts.2.length ≤ maxToolNameLength

theorem fitting_fitCallablePartsWithHash (nameSpace toolName rawIdentity : String)
    (spaceText : NameText nameSpace) (spaceNonempty : nameSpace ≠ "") (named : NameText toolName) :
    Fitting (fitCallablePartsWithHash sha1 nameSpace toolName rawIdentity 2) := by
  have suffixSize := utf8ByteSize_callableNameHashSuffix sha1 rawIdentity
  have suffixLength := length_callableNameHashSuffix sha1 rawIdentity
  have suffixText := nameText_callableNameHashSuffix sha1 rawIdentity
  have spaceSize := utf8ByteSize_of_nameText spaceText
  simp only [fitCallablePartsWithHash, suffixSize, spaceSize]
  split
  next room =>
    refine ⟨spaceText, spaceNonempty, ?_, ?_⟩
    · exact (nameText_append _ _).mpr ⟨nameText_take _ named, suffixText⟩
    · simp only [truncateName, String.length_append, String.length_ofList,
        length_take, suffixLength, maxToolNameLength] at room ⊢
      omega
  next =>
    refine ⟨nameText_take _ spaceText, ?_, suffixText, ?_⟩
    · intro empty
      rw [truncateName, String.ofList_eq_empty_iff, take_eq_nil_iff] at empty
      rcases empty with noRoom | nothing
      · exact absurd noRoom (by decide)
      · exact spaceNonempty (String.toList_eq_nil_iff.mp nothing)
    · simp only [truncateName, String.length_ofList, length_take, suffixLength, maxToolNameLength]
      omega

/-- Different digests give parts that read differently. -/
theorem hashDigits_eq_of_modelName_eq {nameSpace toolName : String} {left right : String}
    (same : modelName (fitCallablePartsWithHash sha1 nameSpace toolName left 2) = modelName
        (fitCallablePartsWithHash sha1 nameSpace toolName right 2)) :
    hashDigits sha1 left = hashDigits sha1 right := by
  have leftSize := utf8ByteSize_callableNameHashSuffix sha1 left
  have rightSize := utf8ByteSize_callableNameHashSuffix sha1 right
  simp only [fitCallablePartsWithHash, leftSize, rightSize, modelName] at same
  split at same <;> simpa [callableNameHashSuffix, String.append_assoc] using same

/-! ## The retry loop -/

/-- The texts that naming a tool list may hash. -/
def hashedIdentities (tools : List ToolInfo) : List String := tools.flatMap fun tool =>
    rawNamespaceIdentity tool :: (List.range tools.length).map (hashInput (rawToolIdentity tool))

/-- Different hashed texts have different digits. -/
def DigitsInjective (tools : List ToolInfo) : Prop :=
  ∀ left ∈ hashedIdentities tools, ∀ right ∈ hashedIdentities tools,
    hashDigits sha1 left = hashDigits sha1 right → left = right

theorem hashInput_injective {left right : Nat}
    (same : hashInput rawIdentity left = hashInput rawIdentity right) : left = right := by
  have longer : ∀ attempt : Nat, rawIdentity ≠ rawIdentity ++ "\x00" ++ toString attempt := by
    intro attempt equal
    have sized := congrArg String.length equal
    simp only [String.length_append] at sized
    have delimiter : "\x00".length = 1 := rfl
    omega
  rw [hashInput, hashInput] at same
  split at same
  next zeroLeft =>
    split at same
    next zeroRight => rw [zeroLeft, zeroRight]
    next => exact absurd same (longer right)
  next =>
    split at same
    next => exact absurd same.symm (longer left)
    next =>
      rw [String.append_right_inj] at same
      exact Nat.repr_inj.mp same

/-- The retry loop tries a different text each time. -/
theorem fallbackParts_injective
    (few : tools.length ≤ u32Max) (injective : DigitsInjective sha1 tools)
    {tool : ToolInfo} (listed : tool ∈ tools) {nameSpace toolName : String}
    {left right : Nat} (leftBound : left < tools.length) (rightBound : right < tools.length)
    (same : modelName (fallbackParts sha1 nameSpace toolName (rawToolIdentity tool) 2 left) =
      modelName (fallbackParts sha1 nameSpace toolName (rawToolIdentity tool) 2 right)) :
    left = right := by
  rw [fallbackParts, fallbackParts, Nat.min_eq_left (by omega : left ≤ u32Max),
    Nat.min_eq_left (by omega : right ≤ u32Max)] at same
  have digits := hashDigits_eq_of_modelName_eq sha1 same
  have hashed : ∀ attempt < tools.length,
      hashInput (rawToolIdentity tool) attempt ∈ hashedIdentities tools := by
    intro attempt bound
    refine mem_flatMap.mpr ⟨tool, listed, mem_cons_of_mem _ ?_⟩
    exact mem_map.mpr ⟨attempt, mem_range.mpr bound, rfl⟩
  exact hashInput_injective (rawToolIdentity tool)
    (injective _ (hashed left leftBound) _ (hashed right rightBound) digits)

/-- The parts that a candidate may end up with. -/
def possibleParts (count : Nat) (candidate : CallableToolCandidate) : List (String × String) :=
  (candidate.callableNamespace, candidate.callableName) :: (List.range count).map
      (fallbackParts sha1 candidate.callableNamespace
        candidate.callableName candidate.rawToolIdentity 2)

/-- What one candidate gets: parts that fit and read like no used name. -/
theorem chooseParts_spec {usedNames : List String} {candidate : CallableToolCandidate}
    (wellNamed : WellNamed tools candidate) {parts : String × String}
    (chosen : chooseParts sha1 usedNames candidate = some parts) :
    Fitting parts ∧ parts ∈ possibleParts sha1 (usedNames.length + 1) candidate := by
  have spaceText := wellNamed.nameSpaceText
  have spaceNonempty := wellNamed.nameSpaceNonempty
  have named := wellNamed.nameText
  rw [chooseParts, uniqueCallableParts] at chosen
  split at chosen
  next fits =>
    obtain rfl := Option.some.inj chosen
    refine ⟨⟨spaceText, spaceNonempty, named, ?_⟩, mem_cons_self⟩
    have sized := fits.1
    rw [modelName, utf8ByteSize_of_nameText ((nameText_append _ _).mpr ⟨spaceText, named⟩),
      String.length_append] at sized
    have delimiter : mcpToolNameDelimiter.utf8ByteSize = 2 := rfl
    rw [delimiter] at sized
    dsimp only at sized ⊢
    omega
  next =>
    obtain ⟨-, number, bound, rfl⟩ := FreshChoice.search_eq_some _ _ chosen
    refine ⟨fitting_fitCallablePartsWithHash sha1 _ _ _ spaceText
      spaceNonempty named, mem_cons_of_mem _ ?_⟩
    exact mem_map.mpr ⟨number, mem_range.mpr (by omega), rfl⟩

theorem chooseParts_fresh (usedNames : List String)
    (candidate : CallableToolCandidate) (parts : String × String)
    (chosen : chooseParts sha1 usedNames candidate = some parts) : modelName parts ∉ usedNames := by
  rw [chooseParts, uniqueCallableParts] at chosen
  split at chosen
  next fits =>
    obtain rfl := Option.some.inj chosen
    exact fits.2
  next => exact (FreshChoice.search_eq_some _ _ chosen).1

/-- The retry loop ends while fewer names are used than there are tools. -/
theorem exists_chooseParts (few : tools.length ≤ u32Max) (injective : DigitsInjective sha1 tools)
    (usedNames : List String) (room : usedNames.length < tools.length)
    {candidate : CallableToolCandidate} (wellNamed : WellNamed tools candidate) :
    ∃ parts, chooseParts sha1 usedNames candidate = some parts := by
  rw [chooseParts, uniqueCallableParts]
  split
  · exact ⟨_, rfl⟩
  · refine FreshChoice.exists_search_eq_some (Nat.lt_succ_self _) ?_
    intro left leftBound right rightBound same
    rw [wellNamed.identity] at same
    exact fallbackParts_injective sha1 tools few injective
      wellNamed.listed (by omega) (by omega) same

/-! ## The last loop -/

/-- What naming returns, in terms of the candidates and their parts. -/
structure Assignment (tools : List ToolInfo) (prefixMcpToolNames : Bool)
    (entries : List (CallableToolCandidate × (String × String))) :
    Prop where
  candidates : entries.map (·.1) = sortedCandidates sha1 tools prefixMcpToolNames
  distinct : (entries.map fun entry => modelName entry.2).Nodup
  fitting : ∀ entry ∈ entries, Fitting entry.2
  possible : ∀ entry ∈ entries, entry.2 ∈ possibleParts sha1 tools.length entry.1

theorem exists_assignment (few : tools.length ≤ u32Max) (injective : DigitsInjective sha1 tools) :
    ∃ entries, Assignment sha1 tools prefixMcpToolNames entries ∧
      normalizeToolsForModelWithPrefix sha1 tools prefixMcpToolNames =
        some (entries.map fun entry => renamed entry.1.tool entry.2) := by
  obtain ⟨wellNamed, -, -⟩ := sortedCandidates_spec sha1 tools prefixMcpToolNames
  have shorter := length_sortedCandidates_le sha1 tools prefixMcpToolNames
  obtain ⟨choices, assigned⟩ := FreshChoice.exists_assign_eq_some []
    (fun candidate mem before bound =>
      exists_chooseParts sha1 tools few injective before (by simp only [length_nil] at bound; omega)
        (wellNamed candidate mem))
  have chosen := FreshChoice.assign_forall₂ _ _ assigned
  obtain ⟨sameLength, made⟩ := forall₂_iff_zip.mp chosen
  have fresh := (FreshChoice.assign_nodup
    (fun taken item choice => chooseParts_fresh sha1 taken item choice) _ _ assigned).1
  refine ⟨(sortedCandidates sha1 tools prefixMcpToolNames).zip choices, ?_, ?_⟩
  · refine
      { candidates := map_fst_zip sameLength.le
        distinct := ?_
        fitting := ?_
        possible := ?_ }
    · have names : ((sortedCandidates sha1 tools prefixMcpToolNames).zip choices).map
            (fun entry => modelName entry.2) = choices.map modelName := by
        have split := map_map (f := Prod.snd) (g := modelName)
          (l := (sortedCandidates sha1 tools prefixMcpToolNames).zip choices)
        rw [map_snd_zip sameLength.ge] at split
        exact split.symm
      rw [names]
      exact fresh
    · rintro ⟨candidate, parts⟩ mem
      obtain ⟨before, -, picked⟩ := made mem
      exact (chooseParts_spec sha1 tools (wellNamed candidate (of_mem_zip mem).1) picked).1
    · rintro ⟨candidate, parts⟩ mem
      obtain ⟨before, bound, picked⟩ := made mem
      have found := (chooseParts_spec sha1 tools
        (wellNamed candidate (of_mem_zip mem).1) picked).2
      rcases mem_cons.mp found with preferred | fallback
      · exact preferred ▸ mem_cons_self
      · obtain ⟨number, inRange, same⟩ := mem_map.mp fallback
        refine mem_cons_of_mem _ (mem_map.mpr ⟨number, ?_, same⟩)
        rw [mem_range] at inRange ⊢
        simp only [length_nil] at bound
        omega
  · rw [normalizeToolsForModelWithPrefix, assigned]
    rfl

/-! ## Names on the wire -/

/-- The name under which a wire without namespaces carries the tool. -/
def flatWireName (tool : ToolInfo) : String :=
  flatMcpToolName tool.callableName (some tool.callableNamespace)

def joined (parts : String × String) : String := parts.1 ++ "__" ++ parts.2

theorem flatWireName_renamed (tool : ToolInfo) {parts : String × String}
    (someSpace : parts.1 ≠ "") :
    flatWireName (renamed tool parts) = joined parts := by
  have nonempty := String.isEmpty_eq_false_iff.mpr someSpace
  simp only [flatWireName, renamed, flatMcpToolName, nonempty, joined]
  rfl

/--
The second namespace continues the first by a delimiter and a middle part that
is not only underscores, and the first name has that middle part and a
delimiter in front of the second name.
-/
def ambiguous (first second : String × String) : Bool :=
  match stripPrefix? second.1 (first.1 ++ "__") with
  | some middle => middle.toList.any (· ≠ '_') && first.2 == middle ++ "__" ++ second.2
  | none => false

theorem joined_eq_of_ambiguous {first second : String × String}
    (overlap : ambiguous first second = true) : joined first = joined second := by
  rw [ambiguous] at overlap
  split at overlap
  next middle stripped =>
    have nameSpace := stripPrefix?_eq_some _ _ _ stripped
    rw [Bool.and_eq_true, beq_iff_eq] at overlap
    rw [joined, joined, nameSpace, overlap.2]
    simp only [String.append_assoc]
  next => cases overlap

theorem ambiguous_of_longer {first second : String × String}
    {extra : List Char} (longer : second.1.toList = first.1.toList ++ extra)
    (rest : '_' :: '_' :: first.2.toList = extra ++ '_' :: '_' :: second.2.toList)
    (different : modelName first ≠ modelName second) : ambiguous first second = true := by
  have chars : first.1.toList ++ first.2.toList ≠ second.1.toList ++ second.2.toList := by
    intro same
    refine different (String.toList_inj.mp ?_)
    simpa [modelName] using same
  rw [longer] at chars
  match extra, longer, rest, chars with
  | [], _, rest, chars => exact absurd (by simpa using rest) chars
  | [single], _, rest, chars =>
    -- One underscore is shared by the two delimiters.
    simp only [cons_append, nil_append, List.cons.injEq] at rest
    obtain ⟨rfl, -, tail⟩ := rest
    exact absurd (by simp [tail]) chars
  | one :: two :: middle, longer, rest, chars =>
    simp only [cons_append, List.cons.injEq] at rest
    obtain ⟨rfl, rfl, tail⟩ := rest
    have nameSpace : second.1 = first.1 ++ "__" ++ String.ofList middle := by
      refine String.toList_inj.mp ?_
      simp [longer]
    have stripped : stripPrefix? second.1 (first.1 ++ "__") = some (String.ofList middle) := by
      rw [nameSpace, stripPrefix?_append]
    have name : first.2 = String.ofList middle ++ "__" ++ second.2 := by
      refine String.toList_inj.mp ?_
      simp [tail]
    have visible : (middle.any (· ≠ '_')) = true := by
      by_contra hidden
      have underscores : middle = List.replicate middle.length '_' := by
        refine eq_replicate_iff.mpr ⟨rfl, fun char mem => ?_⟩
        by_contra other
        exact hidden (any_eq_true.mpr ⟨char, mem, by simpa using other⟩)
      refine chars ?_
      rw [tail, underscores]
      have commutes : List.replicate middle.length '_' ++ ['_', '_'] =
          ['_', '_'] ++ List.replicate middle.length '_' := by
        rw [show ['_', '_'] = List.replicate 2 '_' from rfl,
          ← replicate_add, ← replicate_add, Nat.add_comm]
      have moved := congrArg (fun front => first.1.toList ++ front ++ second.2.toList) commutes
      simpa using moved
    simp only [ambiguous, stripped, String.toList_ofList, visible, name,
      beq_self_eq_true, Bool.and_self]

/-- Parts that read differently apart and equally joined overlap. -/
theorem ambiguous_of_joined_eq {first second : String × String}
    (same : joined first = joined second) (different : modelName first ≠ modelName second) :
    ambiguous first second = true ∨ ambiguous second first = true := by
  have chars : first.1.toList ++ '_' :: '_' :: first.2.toList =
      second.1.toList ++ '_' :: '_' :: second.2.toList := by
    simpa [joined] using congrArg String.toList same
  rcases append_eq_append_iff.mp chars with
    ⟨extra, longer, rest⟩ | ⟨extra, longer, rest⟩
  · exact Or.inl (ambiguous_of_longer longer rest different)
  · exact Or.inr (ambiguous_of_longer longer rest different.symm)

theorem Fitting.utf8ByteSize_joined {parts : String × String} (fitting : Fitting parts) :
    (joined parts).utf8ByteSize ≤ maxToolNameLength := by
  rw [joined, String.utf8ByteSize_append, String.utf8ByteSize_append,
    utf8ByteSize_of_nameText fitting.nameSpaceText, utf8ByteSize_of_nameText fitting.nameText]
  exact fitting.sized

/-! ## The guarantee -/

/-- One returned tool for each identity, changed in its visible parts only. -/
def OneForEachIdentity (tools named : List ToolInfo) : Prop := ∃ sources : List ToolInfo,
    (∀ source ∈ sources, source ∈ tools) ∧ (sources.map rawToolIdentity).Nodup ∧
      (∀ tool ∈ tools, rawToolIdentity tool ∈ sources.map rawToolIdentity) ∧
      List.Forall₂ (fun source tool => tool = renamed source
          (tool.callableNamespace, tool.callableName))
        sources named

def preferredParts (candidate : CallableToolCandidate) : String × String :=
  (candidate.callableNamespace, candidate.callableName)

/-- Those of the parts that fit the cap; others never become a name. -/
def fittingParts (count : Nat) (candidate : CallableToolCandidate) : List (String × String) :=
  (possibleParts sha1 count candidate).filter fun parts =>
    (joined parts).utf8ByteSize ≤ maxToolNameLength

/-- No two tools have parts, as cleaned up or as hashed, that fit and overlap. -/
def Unambiguous (tools : List ToolInfo) (prefixMcpToolNames : Bool) : Prop :=
  ∀ left ∈ sortedCandidates sha1 tools prefixMcpToolNames,
    ∀ right ∈ sortedCandidates sha1 tools prefixMcpToolNames,
      left.rawToolIdentity ≠ right.rawToolIdentity → ∀ first ∈ fittingParts sha1 tools.length left,
          ∀ second ∈ fittingParts sha1 tools.length right, ambiguous first second = false

/-- Every candidate fits the cap and reads like no other one. -/
def Plain (tools : List ToolInfo) (prefixMcpToolNames : Bool) : Prop :=
  (∀ candidate ∈ sortedCandidates sha1 tools prefixMcpToolNames,
    (modelName (preferredParts candidate)).utf8ByteSize + 2 ≤
      maxToolNameLength) ∧
    ((sortedCandidates sha1 tools prefixMcpToolNames).map
      fun candidate => modelName (preferredParts candidate)).Nodup

variable (entries : List (CallableToolCandidate × (String × String)))
  (assignment : Assignment sha1 tools prefixMcpToolNames entries)
include assignment

theorem oneForEachIdentity_of_assignment :
    OneForEachIdentity tools (entries.map fun entry => renamed entry.1.tool entry.2) := by
  obtain ⟨wellNamed, distinct, covered⟩ := sortedCandidates_spec sha1 tools prefixMcpToolNames
  rw [← assignment.candidates] at wellNamed distinct covered
  have identities : (entries.map (·.1)).map (·.rawToolIdentity) =
        (entries.map (·.1.tool)).map rawToolIdentity := by
    rw [map_map, map_map]
    refine map_congr_left fun entry mem => ?_
    exact (wellNamed entry.1 (mem_map_of_mem mem)).identity
  rw [identities] at distinct covered
  refine ⟨entries.map (·.1.tool), ?_, distinct, covered, ?_⟩
  · intro source mem
    obtain ⟨entry, listed, rfl⟩ := mem_map.mp mem
    exact (wellNamed entry.1 (mem_map_of_mem listed)).listed
  · rw [forall₂_map_left_iff, forall₂_map_right_iff, forall₂_same]
    intro entry _
    rfl

theorem map_flatWireName_of_assignment :
    (entries.map fun entry => renamed entry.1.tool entry.2).map flatWireName =
      entries.map fun entry => joined entry.2 := by
  rw [map_map]
  refine map_congr_left fun entry mem => ?_
  exact flatWireName_renamed entry.1.tool (assignment.fitting entry mem).nameSpaceNonempty

theorem nodup_joined_of_unambiguous (clear : Unambiguous sha1 tools prefixMcpToolNames) :
    (entries.map fun entry => joined entry.2).Nodup := by
  obtain ⟨-, distinct, -⟩ := sortedCandidates_spec sha1 tools prefixMcpToolNames
  have inList : ∀ entry ∈ entries, entry.1 ∈ sortedCandidates sha1 tools prefixMcpToolNames := by
    intro entry mem
    rw [← assignment.candidates]
    exact mem_map_of_mem mem
  rw [← assignment.candidates, map_map] at distinct
  have fits : ∀ entry ∈ entries, entry.2 ∈ fittingParts sha1 tools.length entry.1 :=
    fun entry mem =>
    mem_filter.mpr ⟨assignment.possible entry mem,
      decide_eq_true (assignment.fitting entry mem).utf8ByteSize_joined⟩
  have apart := (pairwise_map.mp distinct).and (pairwise_map.mp assignment.distinct)
  refine pairwise_map.mpr (apart.imp_of_mem ?_)
  rintro first second inFirst inSecond ⟨identities, names⟩ same
  rcases ambiguous_of_joined_eq same names with
    overlap | overlap
  · exact absurd overlap (Bool.eq_false_iff.mp (clear first.1 (inList first inFirst) second.1
        (inList second inSecond) identities first.2
        (fits first inFirst) second.2 (fits second inSecond)))
  · exact absurd overlap (Bool.eq_false_iff.mp (clear second.1 (inList second inSecond) first.1
        (inList first inFirst) (Ne.symm identities) second.2
        (fits second inSecond) first.2 (fits first inFirst)))

omit assignment

theorem normalize_of_plain (plain : Plain sha1 tools prefixMcpToolNames) :
    normalizeToolsForModelWithPrefix sha1 tools prefixMcpToolNames =
      some ((sortedCandidates sha1 tools prefixMcpToolNames).map fun candidate =>
          renamed candidate.tool (preferredParts candidate)) := by
  have granted : ∀ taken candidate, modelName (preferredParts candidate) ∉ taken →
      candidate ∈ sortedCandidates sha1 tools prefixMcpToolNames →
        chooseParts sha1 taken candidate = some (preferredParts candidate) := by
    intro taken candidate free mem
    rw [chooseParts, uniqueCallableParts]
    exact if_pos ⟨plain.1 candidate mem, free⟩
  have kept := FreshChoice.assign_eq_map [] granted plain.2 (by simp)
  rw [normalizeToolsForModelWithPrefix]
  simp only [kept, Option.map_some, Option.some.injEq]
  have paired := zip_map' (f := id) (g := preferredParts)
    (l := sortedCandidates sha1 tools prefixMcpToolNames)
  rw [map_id] at paired
  rw [paired, map_map]
  rfl

theorem nodup_joined_iff_of_plain (plain : Plain sha1 tools prefixMcpToolNames) :
    ((sortedCandidates sha1 tools prefixMcpToolNames).map
        fun candidate => joined (preferredParts candidate)).Nodup ↔
      ∀ left ∈ sortedCandidates sha1 tools prefixMcpToolNames,
        ∀ right ∈ sortedCandidates sha1 tools prefixMcpToolNames,
          ambiguous (preferredParts left) (preferredParts right) = false := by
  have injective := inj_on_of_nodup_map plain.2
  constructor
  · intro distinct left inLeft right inRight
    rw [Bool.eq_false_iff]
    intro overlap
    have same := inj_on_of_nodup_map distinct inLeft inRight (joined_eq_of_ambiguous overlap)
    -- A pair does not overlap itself: its namespace is not longer.
    subst same
    rw [ambiguous] at overlap
    split at overlap
    next middle stripped =>
      have sized := congrArg String.length (stripPrefix?_eq_some _ _ _ stripped)
      simp only [String.length_append] at sized
      have delimiter : "__".length = 2 := rfl
      omega
    next => cases overlap
  · intro clear
    refine pairwise_map.mpr ((pairwise_map.mp plain.2).imp_of_mem ?_)
    intro left right inLeft inRight names same
    rcases ambiguous_of_joined_eq same names with overlap | overlap
    · exact absurd overlap (Bool.eq_false_iff.mp (clear left inLeft right inRight))
    · exact absurd overlap (Bool.eq_false_iff.mp (clear right inRight left inLeft))

end Naming

/-! ## Sample servers -/

/-- SHA-1 digests of the identities below. -/
def sampleDigests : List (String × String) := [("docs\x00docs\x00",
     "d5b362f2dd6da2b1fc7415600776859ab25a8679"),
   ("docs\x00docs\x00\x00search\x00search",
     "1b7342de6aa9d3894a0536ff94160de96bcfaf90"),
   ("docs\x00docs\x00\x00search\x00search\x001",
     "c9f640e2f3140d5b43eef2a2f11de6a8b728503d"),
   ("mail\x00mail\x00",
     "eda6fd978ea4ae1a7308d7e35548e9c791e9d245"),
   ("mail\x00mail\x00\x00send\x00send",
     "25a6a90b6131de2ebfd4935c3d33613f842a0119"),
   ("mail\x00mail\x00\x00send\x00send\x001",
     "f8a4123092dcff82315cf3bbd3b90cffdb4bc682"),
   ("one\x00a\x00",
     "f80041ed9e21cffd9954345530a67181dea53875"),
   ("one\x00a\x00\x00b__c\x00b__c",
     "55805e5c7d4fc2747530355355326169b290cc83"),
   ("one\x00a\x00\x00b__c\x00b__c\x001",
     "b170ae938c03291f1c7de20c6b5b8b832963b084"),
   ("two\x00a__b\x00",
     "3c9e386fc46a21b7da24ab3a4cec4d2aa669848d"),
   ("two\x00a__b\x00\x00c\x00c",
     "858e0b9504688b0e884fd6735b3c6bb018560c36"),
   ("two\x00a__b\x00\x00c\x00c\x001",
     "d84218de7269ae9d4caba70a429bcab907cac9e6")]

/-- A digest that agrees with SHA-1 on the identities below. -/
def sampleSha1 : Sha1Hex where
  hex text := (sampleDigests.lookup text).getD "0000000000000000000000000000000000000000"
  sized text := by
    have listed : ∀ entry ∈ sampleDigests, entry.2.length = 40 := by decide +kernel
    cases found : sampleDigests.lookup text with
    | none => decide
    | some digest =>
      obtain ⟨before, after, split, -⟩ := List.lookup_eq_some_iff.mp found
      exact listed (text, digest) (by simp [split])
  digits text := by
    have listed : ∀ entry ∈ sampleDigests, entry.2.toList.all isNameCharacter = true := by
      decide +kernel
    refine List.all_eq_true.mp ?_
    cases found : sampleDigests.lookup text with
    | none => decide
    | some digest =>
      obtain ⟨before, after, split, -⟩ := List.lookup_eq_some_iff.mp found
      exact listed (text, digest) (by simp [split])

def separateServers : List ToolInfo := [⟨"docs", "search", "docs", "search", none⟩,
   ⟨"mail", "send", "mail", "send", none⟩]

/-- Two servers, one of whose names continues the other. -/
def overlappingServers : List ToolInfo := [⟨"one", "b__c", "a", "b__c", none⟩,
   ⟨"two", "c", "a__b", "c", none⟩]

end Codex.Mcp.UniqueNames
