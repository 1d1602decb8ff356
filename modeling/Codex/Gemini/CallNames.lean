import Codex.Gemini.CallIds
import Codex.Tools.NameRestoration

/-!
# One tool under four spellings

A tool is declared under a flat name.  When the model calls it, the decoder
splits that name and records the bare one; a signed call is replayed under the
flat name, an unsigned call is written under the bare name, and every output
is reported under the bare name.  The spellings agree exactly when reading the
called names back splits none of them.
-/

namespace Codex.Gemini.CallNames

open CallIds Contents RecordedParts WellFormedContents Protocol.JsonValue List
  Protocol.Models Sse.GenerateContent Tools.FlatNames Tools.NameRestoration
  Tools.WireNames

/-! ## Histories of declared calls -/

def declaredNames (tools : Option (List GeminiTool)) : List String :=
  (tools.getD []).flatMap fun tool =>
    match tool with
    | .functionDeclarations declarations => declarations.map (·.name)
    | .googleSearch => []

/-- An item that neither calls a function nor reports an output. -/
def isAside : ResponseItem → Bool
  | .functionCall _ _ _ _ _ => false
  | .functionCallOutput _ _ => false
  | .reasoning _ _ _ _ _ (some block) =>
    (block.get "functionCall").isNone && (block.get "functionResponse").isNone
  | _ => true

/--
What a history is made of: the items of a call of a declared function as the
decoder records them, the output of a call, or another item.
-/
inductive Entry (declared : List String) where
  | call (env : GeminiEnvironment) (number : Nat)
      (call : GeminiFunctionCall) (signature : Option String)
      (listed : call.name ∈ declared)
  | output (callId : String) (output : FunctionCallOutputPayload)
  | aside (item : ResponseItem) (silent : isAside item = true)

variable {declared : List String}

def Entry.items : Entry declared → List ResponseItem
  | .call env number made signature _ => callItems env number made signature
  | .output callId payload => [.functionCallOutput callId payload]
  | .aside item _ => [item]

/-- The id of a call with the name that the model used. -/
def Entry.call? : Entry declared → Option (String × String)
  | .call env number made _ _ => some (geminiCallId (env.counter.callAt number), made.name)
  | _ => none

def Entry.outputId? : Entry declared → Option String
  | .output callId _ => some callId
  | _ => none

variable (entries : List (Entry declared))

def history : List ResponseItem := entries.flatMap Entry.items

/-- The calls of a history, by id and by the name that the model used. -/
def calls : List (String × String) := entries.filterMap Entry.call?

def outputIds : List String := entries.filterMap Entry.outputId?

def calledName (part : Value) : Option String :=
  (part.get "functionCall").bind fun call => call.getStr "name"

def reportedName (part : Value) : Option String :=
  (part.get "functionResponse").bind fun response => response.getStr "name"

variable (codec : JsonCodec)

def sentParts (entries : List (Entry declared)) : List Value :=
  (conversationToGeminiContents codec (history entries)).flatMap Turn.parts

/--
In the request, call by call and output by output, the name is the one that
the model used.
-/
def NamesAgree (entries : List (Entry declared)) : Prop :=
  (sentParts codec entries).filterMap calledName = (calls entries).map Prod.snd ∧
    ((sentParts codec entries).filterMap reportedName).map some =
      (outputIds entries).map fun callId => (calls entries).lookup callId

/-! ## The parts of an entry -/

section Parts

variable (codec : JsonCodec) (names : List (String × String)) (entry : Entry declared)

def Entry.parts : List Value := (contributions codec names false entry.items).flatMap Turn.parts

theorem contributions_entry (items : List ResponseItem) :
    contributions codec names false (entry.items ++ items) =
      contributions codec names false entry.items ++ contributions codec names false items := by
  cases entry with
  | call env number call signature listed => cases signature <;> rfl
  | output callId output => rfl
  | aside item silent =>
    have plain : carriesCall item = false := by
      cases item with
      | reasoning id summary content encrypted metadata raw =>
        cases raw with
        | none => rfl
        | some block =>
          simp only [isAside, Bool.and_eq_true, Option.isNone_iff_eq_none] at silent
          simp [carriesCall, hasFunctionCall, silent.1]
      | _ => rfl
    simp [Entry.items, contributions, plain]

theorem parts_history (entries : List (Entry declared)) :
    (contributions codec names false (history entries)).flatMap Turn.parts =
      entries.flatMap (Entry.parts codec names) := by
  induction entries with
  | nil => rfl
  | cons entry rest ih =>
    have split : history (entry :: rest) = entry.items ++ history rest := rfl
    rw [split, contributions_entry, flatMap_append, ih]
    rfl

theorem get_of_isAside {item : ResponseItem} (silent : isAside item = true) {part : Value}
    (listed : part ∈ (itemTurn codec names item).toList.flatMap Turn.parts) :
    part.get "functionCall" = none ∧ part.get "functionResponse" = none := by
  rw [parts_itemTurn] at listed
  cases item with
  | message id role content phase =>
    simp only [itemParts, replayedCall, Option.toList_none, append_nil] at listed
    split at listed
    · cases listed
    · obtain ⟨content, _, shown⟩ := mem_filterMap.mp listed
      cases content with
      | inputImage => cases shown
      | inputText | outputText => cases shown; exact ⟨rfl, rfl⟩
  | reasoning id summary content encrypted metadata raw =>
    cases raw with
    | none => cases listed
    | some block =>
      simp only [isAside, Bool.and_eq_true, Option.isNone_iff_eq_none] at silent
      have other : hasFunctionCall block = false := by simp [hasFunctionCall, silent.1]
      simp only [itemParts, replayedCall, other] at listed
      cases mem_singleton.mp listed
      exact silent
  | functionCall | functionCallOutput => cases silent
  | _ => cases listed

theorem filterMap_flatMap_toList {α β γ : Type*} {parts : α → List β}
    {read : β → Option γ} {value : α → Option γ}
    (each : ∀ entry, (parts entry).filterMap read = (value entry).toList) (entries : List α) :
    (entries.flatMap parts).filterMap read = entries.filterMap value := by
  rw [filterMap_flatMap, filterMap_eq_flatMap_toList]
  exact flatMap_congr fun entry _ => each entry

def Entry.sentName? : Entry declared → Option String
  | .call _ _ made signature _ => some (if signature.isSome then made.name else recordedName made)
  | _ => none

theorem parts_aside (item : ResponseItem) (silent : isAside item = true) :
    Entry.parts codec names (.aside item silent : Entry declared) =
      (itemTurn codec names item).toList.flatMap Turn.parts := by
  simp [Entry.parts, Entry.items, contributions]

theorem names_parts : (entry.parts codec names).filterMap calledName = entry.sentName?.toList ∧
      (entry.parts codec names).filterMap reportedName =
        (entry.outputId?.map (responseName names)).toList := by
  cases entry with
  | call env number call signature listed => cases signature <;> exact ⟨rfl, rfl⟩
  | output callId output => exact ⟨rfl, rfl⟩
  | aside item silent =>
    rw [parts_aside]
    constructor <;> refine filterMap_eq_nil_iff.mpr fun part listed => ?_
    · rw [calledName, (get_of_isAside codec names silent listed).1]
      rfl
    · rw [reportedName, (get_of_isAside codec names silent listed).2]
      rfl

end Parts

/-! ## The spellings -/

theorem calledName_contents (entries : List (Entry declared)) :
    (sentParts codec entries).filterMap calledName = entries.filterMap Entry.sentName? := by
  have signed := onlySigned_contents codec (history entries)
  have read := filterMap_of_onlySigned signed "functionCall" (by decide)
    fun call => call.getStr "name"
  refine read.trans ?_
  rw [parts_history]
  exact filterMap_flatMap_toList (names_parts codec _ · |>.1) entries

theorem reportedName_contents (entries : List (Entry declared)) :
    (sentParts codec entries).filterMap reportedName = (outputIds entries).map
        (responseName (callIdToName (history entries))) := by
  have signed := onlySigned_contents codec (history entries)
  have read := filterMap_of_onlySigned signed "functionResponse"
    (by decide) fun response => response.getStr "name"
  refine read.trans ?_
  rw [parts_history, outputIds, map_filterMap]
  exact filterMap_flatMap_toList (names_parts codec _ · |>.2) entries

/-! ## Agreement -/

theorem mem_callsIn_history {entries : List (Entry declared)}
    {callId name : String} (listed : (callId, name) ∈ calls entries) :
    (callId, (parseFlatMcpToolName name).name) ∈ callsIn (history entries) := by
  obtain ⟨entry, entryListed, shown⟩ := mem_filterMap.mp listed
  cases entry with
  | call env number made signature declaredMade =>
    cases shown
    have inner : (geminiCallId (env.counter.callAt number), recordedName made) ∈
          callsIn (callItems env number made signature) := by
      rw [callsIn_callItems]
      exact mem_singleton_self _
    obtain ⟨item, itemListed, read⟩ := mem_filterMap.mp inner
    exact mem_filterMap.mpr ⟨item, mem_flatMap.mpr ⟨_, entryListed, itemListed⟩, read⟩
  | output | aside => cases shown

theorem fst_callsIn_history :
    (callsIn (history entries)).map Prod.fst = (calls entries).map Prod.fst := by
  induction entries with
  | nil => rfl
  | cons entry rest ih =>
    have split : history (entry :: rest) = entry.items ++ history rest := rfl
    rw [split, callsIn_append, map_append, ih]
    cases entry with
    | call env number made signature listed =>
      rw [Entry.items, callsIn_callItems]
      rfl
    | output => rfl
    | aside item silent =>
      cases item with
      | functionCall => cases silent
      | _ => rfl

/--
With distinct call ids and one output for each call, every call and every
output is sent under the declared name that the model used exactly when no
such name is split when it is read.
-/
theorem tool_names_agree_iff (sha256 : Sha256Hex)
    (sanitizeForGemini : Value → Value) (tools : List ToolSpec)
    (webSearchEnabled : Bool) (codec : JsonCodec)
    (entries : List (Entry (declaredNames (toolsToGeminiFormat sha256
      sanitizeForGemini tools webSearchEnabled))))
    (distinct : ((calls entries).map Prod.fst).Nodup)
    (answered : (outputIds entries).Perm ((calls entries).map Prod.fst)) :
    NamesAgree codec entries ↔ ∀ name ∈ (calls entries).map Prod.snd,
        (parseFlatMcpToolName name).nameSpace = none := by
  have recordedDistinct : ((callsIn (history entries)).map Prod.fst).Nodup := by
    rw [fst_callsIn_history]
    exact distinct
  have reported : ∀ {callId name}, (callId, name) ∈ calls entries →
      responseName (callIdToName (history entries)) callId =
        (parseFlatMcpToolName name).name := fun listed =>
    responseName_of_mem recordedDistinct (mem_callsIn_history listed)
  unfold NamesAgree
  simp only [calledName_contents, reportedName_contents, map_map]
  constructor
  · rintro ⟨_, outputs⟩ name named
    obtain ⟨⟨callId, _⟩, listed, rfl⟩ := mem_map.mp named
    have answeredHere : callId ∈ outputIds entries := answered.mem_iff.mpr (mem_map_of_mem listed)
    have same := map_inj_left.mp outputs callId answeredHere
    rw [lookup_of_mem distinct listed, Function.comp_apply,
      reported listed, Option.some.injEq] at same
    exact (recordedName_eq_iff ⟨_, none⟩).mp same
  · intro whole
    have kept : ∀ {callId name}, (callId, name) ∈ calls entries →
        (parseFlatMcpToolName name).name = name := fun listed =>
      (recordedName_eq_iff ⟨_, none⟩).mpr (whole _ (mem_map_of_mem listed))
    refine ⟨?_, map_inj_left.mpr ?_⟩
    · rw [calls, map_filterMap]
      refine filterMap_congr fun entry entryListed => ?_
      cases entry with
      | call env number made signature listed =>
        have same : recordedName made = made.name := kept (mem_filterMap.mpr ⟨_, entryListed, rfl⟩)
        simp [Entry.sentName?, Entry.call?, same]
      | output | aside => rfl
    · intro callId answeredHere
      obtain ⟨⟨_, name⟩, listed, rfl⟩ := mem_map.mp (answered.mem_iff.mp answeredHere)
      rw [Function.comp_apply, reported listed, kept listed, lookup_of_mem distinct listed]

/-- The names that a request with some tools declares. -/
def sampleDeclared (tools : List ToolSpec) : List String :=
  declaredNames (toolsToGeminiFormat sampleSha256 id tools false)

/-- A function of its own, called and answered. -/
def plainEntries : List (Entry (sampleDeclared [.function (sampleTool "ls")])) :=
  [.call plainGemini 0 ⟨"ls", none⟩ none (by decide +kernel),
    .output "gemini_call_0" ⟨.text "a", none⟩]

theorem plainEntries_agree : NamesAgree constantCodec plainEntries := by
  refine (tool_names_agree_iff sampleSha256 id _ false constantCodec plainEntries ?_ ?_).mpr ?_
  · decide +kernel
  · exact Perm.refl _
  · decide +kernel

/-- A server's function, called without and with a signature. -/
def serverEntries : List (Entry (sampleDeclared serverTools)) :=
  [.call plainGemini 0 ⟨"mcp__srv__read", none⟩ none (by decide +kernel),
    .output "gemini_call_0" ⟨.text "a", none⟩,
    .call plainGemini 1 ⟨"mcp__srv__read", none⟩ (some "s") (by decide +kernel),
    .output "gemini_call_1" ⟨.text "b", none⟩]

/-- Only the signed call keeps the declared name; neither output has it. -/
theorem split_names_disagree : ((calls serverEntries).map Prod.fst).Nodup ∧
      (outputIds serverEntries).Perm ((calls serverEntries).map Prod.fst) ∧
      (calls serverEntries).map Prod.snd = ["mcp__srv__read", "mcp__srv__read"] ∧
      (sentParts constantCodec serverEntries).filterMap calledName = ["read", "mcp__srv__read"] ∧
      (sentParts constantCodec serverEntries).filterMap reportedName = ["read", "read"] ∧
      ¬ NamesAgree constantCodec serverEntries := by
  have sent : (sentParts constantCodec serverEntries).filterMap
      calledName = ["read", "mcp__srv__read"] := by
    rw [calledName_contents]
    decide +kernel
  have reported : (sentParts constantCodec serverEntries).filterMap
      reportedName = ["read", "read"] := by
    rw [reportedName_contents]
    decide +kernel
  refine ⟨by decide +kernel, Perm.refl _, by decide +kernel, sent, reported, ?_⟩
  rintro ⟨agree, _⟩
  rw [sent] at agree
  revert agree
  decide +kernel

end Codex.Gemini.CallNames
