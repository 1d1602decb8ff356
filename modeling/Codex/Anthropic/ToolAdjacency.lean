import Codex.Anthropic.RoleRuns
import Codex.Library.HandoverChain
import Mathlib.Data.Finset.Lattice.Lemmas

/-!
# Tool calls are answered by the next message

The provider accepts a `tool_use` block only if the next message is a user
message that begins with its `tool_result`, and a `tool_result` only if the
message before it made the call.  The adjacency pass establishes this for
neighbouring runs.  The later passes delete messages, which changes who is
whose neighbour, but only messages that neither make nor answer a call.
-/

namespace Codex.Anthropic.ToolAdjacency

open List hiding lookup
open Passes RoleRuns Wire Library.HandoverChain Protocol.JsonValue
  Protocol.Models Message

/-! ## The property -/

variable (content : List Value)

def useIds : Finset String := (blockIds "tool_use" "id" content).toFinset

/-- The ids of the calls that a list of blocks answers. -/
def resultIds : Finset String := (blockIds "tool_result" "tool_use_id" content).toFinset

/-- The tool results of a list of blocks come first. -/
def ResultsFirst : Prop := content.filter (hasType "tool_result") <+: content

/-- A block stands under the role of its type and names its call. -/
def BlockFits (role : Role) (block : Value) : Prop := (hasType "tool_use" block = true →
    role = .assistant ∧ (block.getStr "id").isSome) ∧
  (hasType "tool_result" block = true →
    role = .user ∧ (block.getStr "tool_use_id").isSome)

/-- The tool adjacency rules of the provider, on the JSON array. -/
structure Adjacent (msgs : List Value) : Prop where
  usesFromAssistant : ∀ msg ∈ msgs, ∀ block ∈ Message.contentOf msg,
      hasType "tool_use" block = true → Message.roleOf msg = some "assistant" ∧
          (block.getStr "id").isSome
  resultsFromUser : ∀ msg ∈ msgs, ∀ block ∈ Message.contentOf msg,
      hasType "tool_result" block = true → Message.roleOf msg = some "user" ∧
          (block.getStr "tool_use_id").isSome
  firstAnswersNothing : ∀ msg, msgs[0]? = some msg →
    ∀ block ∈ Message.contentOf msg, hasType "tool_result" block = false
  answered : ∀ index : Nat, msgs[index]?.elim ∅ (useIds ∘ Message.contentOf) =
      msgs[index + 1]?.elim ∅ (resultIds ∘ Message.contentOf)
  resultsFirst : ∀ msg ∈ msgs, ResultsFirst (Message.contentOf msg)

/-- The same rules on messages before they are written as JSON. -/
structure ToolSound (msgs : List Message) : Prop where
  fits : ∀ msg ∈ msgs, ∀ block ∈ msg.content, BlockFits msg.role block
  resultsFirst : ∀ msg ∈ msgs, ResultsFirst msg.content
  linked : Linked (fun msg : Message => resultIds msg.content)
    (fun msg : Message => useIds msg.content) ∅ msgs

variable (kind : String) {msgs : List Message} {role : Role} {block : Value}
  {before after content : List Value} {msg : Message} (prev : Option Message)

theorem ToolSound.adjacent (sound : ToolSound msgs) : Adjacent (msgs.map toJson) where
  usesFromAssistant := by
    intro msg mem block inside typed
    obtain ⟨source, sourceMember, rfl⟩ := mem_map.mp mem
    rw [contentOf_toJson] at inside
    obtain ⟨role, named⟩ := (sound.fits source sourceMember block inside).1 typed
    exact ⟨by simp [role, Role.text], named⟩
  resultsFromUser := by
    intro msg mem block inside typed
    obtain ⟨source, sourceMember, rfl⟩ := mem_map.mp mem
    rw [contentOf_toJson] at inside
    obtain ⟨role, named⟩ := (sound.fits source sourceMember block inside).2 typed
    exact ⟨by simp [role, Role.text], named⟩
  firstAnswersNothing := by
    intro msg first block inside
    rw [getElem?_map, Option.map_eq_some_iff] at first
    obtain ⟨source, sourceFirst, rfl⟩ := first
    rw [contentOf_toJson] at inside
    by_contra typed
    rw [Bool.not_eq_false] at typed
    obtain ⟨-, named⟩ := (sound.fits source (mem_of_getElem? sourceFirst) block inside).2 typed
    obtain ⟨id, named⟩ := Option.isSome_iff_exists.mp named
    have answersNothing : resultIds source.content = ∅ := by
      simpa [sourceFirst] using sound.linked.getElem?.1
    have answers : id ∈ resultIds source.content := by
      rw [resultIds, mem_toFinset, mem_blockIds]
      exact ⟨block, inside, typed, named⟩
    rw [answersNothing] at answers
    exact Finset.notMem_empty id answers
  answered := by
    intro index
    have uses : (useIds ∘ contentOf) ∘ toJson = fun msg => useIds msg.content := by
      funext msg
      simp
    have results : (resultIds ∘ contentOf) ∘ toJson = fun msg => resultIds msg.content := by
      funext msg
      simp
    rw [getElem?_map, getElem?_map, Option.elim_map, Option.elim_map, uses, results]
    exact sound.linked.getElem?.2 index
  resultsFirst := by
    intro msg mem
    obtain ⟨source, sourceMember, rfl⟩ := mem_map.mp mem
    rw [contentOf_toJson]
    exact sound.resultsFirst source sourceMember

/-! ## Blocks of the translation -/

/-- A raw block as the parser of the messages stream stores it. -/
def RawThinking (block : Value) : Prop := isThinking block = true ∧ block.KeysDistinct

theorem BlockFits.of_isThinking (thinking : isThinking block = true) : BlockFits role block := by
  constructor <;> intro typed <;>
    simp [isThinking_of_hasType (by decide) (by decide) typed] at thinking

theorem WireBlock.fits (shape : WireBlock RawThinking role block) : BlockFits role block := by
  cases shape with
  | replayed block known => exact .of_isThinking known.1
  | rebuilt | rebuiltRedacted => exact .of_isThinking rfl
  | _ => exact ⟨by simp [hasType, textBlock, imageBlock, toolUseBlock,
      toolResultBlock, Value.getStr, Value.get, lookup, Value.asStr],
      by simp [hasType, textBlock, imageBlock, toolUseBlock,
      toolResultBlock, Value.getStr, Value.get, lookup, Value.asStr]⟩

theorem WireBlock.keysDistinct (shape : WireBlock RawThinking role block) : block.KeysDistinct := by
  cases shape with
  | replayed block known => exact known.2
  | _ =>
    simp [Value.KeysDistinct, textBlock, imageBlock, toolUseBlock,
      toolResultBlock, rebuiltThinking, rebuiltRedactedThinking,
      reconstructedThinkingMarker]

def SameToolFields (before after : Value) : Prop := after.getStr "type" = before.getStr "type" ∧
    after.getStr "id" = before.getStr "id" ∧
      after.getStr "tool_use_id" = before.getStr "tool_use_id"

theorem SameToolFields.remove (distinct : block.KeysDistinct) :
    SameToolFields block (block.remove reconstructedThinkingMarker) :=
  ⟨block.getStr_remove_ne (by decide) distinct, block.getStr_remove_ne (by decide) distinct,
    block.getStr_remove_ne (by decide) distinct⟩

theorem SameToolFields.insert (block field : Value) :
    SameToolFields block (block.insert "cache_control" field) :=
  ⟨block.getStr_insert_ne _ (by decide), block.getStr_insert_ne _ (by decide),
    block.getStr_insert_ne _ (by decide)⟩

theorem SameToolFields.hasType {before after : Value}
    (same : SameToolFields before after) (kind : String) :
    hasType kind after = hasType kind before := by
  simp [Wire.hasType, same.1]

theorem SameToolFields.fits {role : Role} {before after : Value}
    (same : SameToolFields before after) (fits : BlockFits role before) : BlockFits role after := by
  simpa only [BlockFits, same.hasType, same.2.1, same.2.2] using fits

/-! ## Contents with the same tool fields -/

/-- Two contents whose blocks agree in what the tool rules read. -/
def SameTools (before after : List Value) : Prop := List.Forall₂ SameToolFields before after

theorem SameTools.blockIds {idKey : String}
    (agree : ∀ old new, SameToolFields old new → new.getStr idKey = old.getStr idKey)
    (same : SameTools before after) : blockIds kind idKey after = blockIds kind idKey before := by
  induction same with
  | nil => rfl
  | cons head _ ih =>
    simp only [Wire.blockIds, filter_cons, head.hasType] at ih ⊢
    split
    · simp only [filterMap_cons, agree _ _ head, ih]
    · exact ih

theorem SameTools.useIds (same : SameTools before after) : useIds after = useIds before :=
  congrArg List.toFinset (same.blockIds "tool_use" fun _ _ fields => fields.2.1)

theorem SameTools.resultIds (same : SameTools before after) : resultIds after = resultIds before :=
  congrArg List.toFinset (same.blockIds "tool_result" fun _ _ fields => fields.2.2)

/-! ## Results first -/

theorem resultsFirst_of_none (none : ∀ block ∈ content, hasType "tool_result" block = false) :
    ResultsFirst content := by
  have empty : content.filter (hasType "tool_result") = [] := by simpa using none
  rw [ResultsFirst, empty]
  exact nil_prefix

theorem resultsFirst_cons_of_result {rest : List Value}
    (typed : hasType "tool_result" block = true) :
    ResultsFirst (block :: rest) ↔ ResultsFirst rest := by
  rw [ResultsFirst, filter_cons_of_pos typed, prefix_cons_inj, ResultsFirst]

theorem resultsFirst_cons_of_other {rest : List Value}
    (typed : hasType "tool_result" block = false) :
    ResultsFirst (block :: rest) ↔ ∀ other ∈ rest, hasType "tool_result" other = false := by
  have empty : (∀ other ∈ rest, hasType "tool_result" other = false) ↔
      rest.filter (hasType "tool_result") = [] := by simp
  rw [ResultsFirst, filter_cons_of_neg (by simp [typed]), empty]
  constructor
  · intro front
    cases shape : rest.filter (hasType "tool_result") with
    | nil => rfl
    | cons first others =>
      rw [shape, cons_prefix_cons] at front
      have inside : first ∈ rest.filter (hasType "tool_result") := by simp [shape]
      simp [front.1, typed] at inside
  · intro none
    rw [none]
    exact nil_prefix

theorem resultsFirst_append {results others : List Value}
    (typed : ∀ block ∈ results, hasType "tool_result" block = true)
    (none : ∀ block ∈ others, hasType "tool_result" block = false) :
    ResultsFirst (results ++ others) := by
  induction results with
  | nil => exact resultsFirst_of_none none
  | cons block rest ih =>
    rw [forall_mem_cons] at typed
    rw [cons_append, resultsFirst_cons_of_result typed.1]
    exact ih typed.2

theorem SameTools.noResult (same : SameTools before after)
    (none : ∀ block ∈ before, hasType "tool_result" block = false) :
    ∀ block ∈ after, hasType "tool_result" block = false := by
  induction same with
  | nil => exact none
  | cons head _ ih =>
    rw [forall_mem_cons] at none ⊢
    exact ⟨(head.hasType _).trans none.1, ih none.2⟩

theorem SameTools.resultsFirst (same : SameTools before after) (first : ResultsFirst before) :
    ResultsFirst after := by
  induction same with
  | nil => exact first
  | @cons old new olds news head tail ih =>
    cases typed : hasType "tool_result" old with
    | true =>
      rw [resultsFirst_cons_of_result typed] at first
      rw [resultsFirst_cons_of_result ((head.hasType _).trans typed)]
      exact ih first
    | false =>
      rw [resultsFirst_cons_of_other typed] at first
      rw [resultsFirst_cons_of_other ((head.hasType _).trans typed)]
      exact SameTools.noResult tail first

/-! ## The adjacency pass links neighbours -/

/-- The calls of one message that the next one answers. -/
def shared (prev next : Option Message) : Finset String :=
  (previousUseIds prev).toFinset ∩ (nextResultIds next).toFinset

theorem resultIds_eq_empty (none : ∀ block ∈ content, hasType "tool_result" block = false) :
    resultIds content = ∅ := by
  rw [resultIds, blockIds_eq_nil _ none, toFinset_nil]

theorem useIds_eq_empty (none : ∀ block ∈ content, hasType "tool_use" block = false) :
    useIds content = ∅ := by
  rw [useIds, blockIds_eq_nil _ none, toFinset_nil]

theorem noBlock_of_role_ne {required : Role} {kind : String} (other : msg.role ≠ required)
    (belongs : ∀ block ∈ msg.content, hasType kind block = true → msg.role = required) :
    ∀ block ∈ msg.content, hasType kind block = false := by
  intro block mem
  by_contra typed
  rw [Bool.not_eq_false] at typed
  exact other (belongs block mem typed)

theorem noResult_of_assistant (assistant : msg.role = .assistant)
    (fits : ∀ block ∈ msg.content, BlockFits msg.role block) :
    ∀ block ∈ msg.content, hasType "tool_result" block = false :=
  noBlock_of_role_ne (by rw [assistant]; decide)
    fun block mem typed => ((fits block mem).2 typed).1

variable (next : Option Message) {run : Message}

theorem resultIds_cleanMessage (fits : ∀ block ∈ run.content, BlockFits run.role block) :
    resultIds (cleanMessage prev next run).content = shared prev (some run) := by
  cases role : run.role with
  | user =>
    ext id
    simp only [resultIds, cleanMessage, role, mem_toFinset,
      withContent_content, mem_blockIds_stripUnmatched, shared,
      nextResultIds, if_true, toolResultIds, Finset.mem_inter]
    exact and_comm
  | assistant =>
    rw [resultIds_eq_empty]
    · simp [shared, nextResultIds, role]
    · intro block mem
      exact noResult_of_assistant role fits block ((cleanMessage_sublist _ _ _).subset mem)

theorem useIds_cleanMessage (fits : ∀ block ∈ run.content, BlockFits run.role block) :
    useIds (cleanMessage prev next run).content = shared (some run) next := by
  cases role : run.role with
  | assistant =>
    ext id
    simp only [useIds, cleanMessage, role, mem_toFinset,
      withContent_content, mem_blockIds_stripUnmatched, shared,
      previousUseIds, if_true, toolUseIds, Finset.mem_inter]
  | user =>
    rw [useIds_eq_empty]
    · simp [shared, previousUseIds, role]
    · intro block mem
      exact noBlock_of_role_ne (by rw [role]; decide)
        (fun block mem typed => ((fits block mem).1 typed).1) block
        ((cleanMessage_sublist _ _ _).subset mem)

theorem linkedFrom_adjacentRuns {msgs : List Message}
    (fits : ∀ msg ∈ msgs, ∀ block ∈ msg.content, BlockFits msg.role block) :
    LinkedFrom (fun msg : Message => resultIds msg.content)
      (fun msg : Message => useIds msg.content) ∅
      (shared prev msgs.head?)
      (adjacentRuns prev msgs) := by
  induction msgs generalizing prev with
  | nil => simp [adjacentRuns, LinkedFrom, shared, nextResultIds]
  | cons run rest ih =>
    rw [forall_mem_cons] at fits
    refine ⟨resultIds_cleanMessage _ _ fits.1, ?_⟩
    have onward := ih (some run) fits.2
    rwa [← useIds_cleanMessage prev _ fits.1] at onward

/-! ## The passes keep the rules -/

theorem linked_filter (keep : Message → Bool)
    (removedEmpty : ∀ msg ∈ msgs, keep msg = false → msg.content = [])
    (linked : Linked (fun msg : Message => resultIds msg.content)
      (fun msg : Message => useIds msg.content) ∅ msgs) :
    Linked (fun msg : Message => resultIds msg.content)
      (fun msg : Message => useIds msg.content) ∅
      (msgs.filter keep) := by
  refine LinkedFrom.filter keep ?_ linked
  intro msg mem removed
  have empty := removedEmpty msg mem removed
  simp [empty, resultIds, useIds, blockIds]

theorem ToolSound.filter (sound : ToolSound msgs) (keep : Message → Bool)
    (removedEmpty : ∀ msg ∈ msgs, keep msg = false → msg.content = []) :
    ToolSound (msgs.filter keep) where
  fits := fun msg mem => sound.fits msg (mem_filter.mp mem).1
  resultsFirst := fun msg mem => sound.resultsFirst msg (mem_filter.mp mem).1
  linked := linked_filter keep removedEmpty sound.linked

theorem toolSound_hoisted {runs : List Message}
    (wellRoled : ∀ msg ∈ runs, WellRoled RawThinking msg) :
    ToolSound (hoistToolResultsToFront (cleanOrphanedToolBlocksByAdjacency runs)) := by
  have narrower := (narrows_adjacency runs).trans (narrows_hoist _)
  have fits : ∀ msg ∈ hoistToolResultsToFront (cleanOrphanedToolBlocksByAdjacency runs),
      ∀ block ∈ msg.content, BlockFits msg.role block :=
    fun msg mem block inside =>
      WireBlock.fits (WellRoled.of_narrows narrower wellRoled msg mem block inside)
  refine ⟨fits, ?_, ?_⟩
  · intro msg mem
    obtain ⟨old, -, rfl⟩ := mem_map.mp mem
    cases role : old.role with
    | user =>
      rw [hoistMessage_content old role]
      refine resultsFirst_append ?_ ?_ <;> intro block inside
      · exact (mem_filter.mp inside).2
      · simpa using (mem_filter.mp inside).2
    | assistant => exact resultsFirst_of_none (noResult_of_assistant (by simp [role]) (fits _ mem))
  · have linked := linkedFrom_adjacentRuns none fun msg mem block inside =>
        WireBlock.fits (wellRoled msg mem block inside)
    have start : shared none runs.head? = ∅ := by simp [shared, previousUseIds]
    rw [start, ← cleanFrom_eq_adjacentRuns] at linked
    have kept := linked_filter (fun msg => !msg.content.isEmpty) (by simp) linked
    refine LinkedFrom.of_forall₂ ?_ kept
    rw [hoistToolResultsToFront, forall₂_map_right_iff,
      cleanOrphanedToolBlocksByAdjacency, forall₂_same]
    intro msg _
    have moved := hoistMessage_perm msg
    exact ⟨toFinset_eq_of_perm _ _ ((moved.filter _).filterMap _),
      toFinset_eq_of_perm _ _ ((moved.filter _).filterMap _)⟩

theorem blockIds_filter (idKey : String) {keep : Value → Bool} (content : List Value)
    (keeps : ∀ block, hasType kind block = true → keep block = true) :
    blockIds kind idKey (content.filter keep) = blockIds kind idKey content := by
  unfold blockIds
  rw [filter_filter]
  congr 2
  funext block
  cases typed : hasType kind block with
  | false => rfl
  | true => simp [keeps block typed]

theorem blockIds_stripMessage (idKey : String) (latest : Bool) (msg : Message)
    (notPlain : kind ≠ "thinking") (notRedacted : kind ≠ "redacted_thinking") :
    blockIds kind idKey (stripMessage latest msg).content =
      blockIds kind idKey msg.content := by
  unfold stripMessage
  split
  · refine blockIds_filter _ _ _ fun block typed => ?_
    have other := isThinking_of_hasType notPlain notRedacted typed
    cases latest <;> simp [other]
  · rfl

theorem ToolSound.stripThinking (sound : ToolSound msgs) : ToolSound (stripThinking msgs) := by
  have fits : ∀ msg ∈ Wire.stripThinking msgs,
      ∀ block ∈ msg.content, BlockFits msg.role block := by
    intro msg mem block inside
    obtain ⟨old, oldMember, sameRole, subset⟩ := narrows_stripThinking msgs msg mem
    rw [sameRole]
    exact sound.fits old oldMember block (subset inside)
  refine ⟨fits, ?_, ?_⟩
  · intro msg mem
    cases role : msg.role with
    | assistant => exact resultsFirst_of_none (noResult_of_assistant role (fits msg mem))
    | user =>
      have related := stripThinking_forall₂ msgs
      obtain ⟨old, oldMember, latest, rfl⟩ := exists_of_mem_right related mem
      have unchanged : stripMessage latest old = old := by
        rw [stripMessage_role] at role
        simp [stripMessage, isAssistant, role]
      rw [unchanged]
      exact sound.resultsFirst old oldMember
  · refine LinkedFrom.of_forall₂ ?_ sound.linked
    refine (stripThinking_forall₂ msgs).imp ?_
    rintro old new ⟨latest, rfl⟩
    exact ⟨congrArg List.toFinset (blockIds_stripMessage _ _ _ _ (by decide) (by decide)),
      congrArg List.toFinset (blockIds_stripMessage _ _ _ _ (by decide) (by decide))⟩

/-- Changing other fields of blocks keeps the rules. -/
theorem ToolSound.of_sameTools {before after : List Message} (sound : ToolSound before)
    (related : Forall₂ (fun old new => new.role = old.role ∧
        SameTools old.content new.content) before after) :
    ToolSound after where
  fits := by
    intro msg mem block inside
    obtain ⟨old, oldMember, sameRole, same⟩ := exists_of_mem_right related mem
    obtain ⟨oldBlock, oldInside, fields⟩ := exists_of_mem_right same inside
    rw [sameRole]
    exact fields.fits (sound.fits old oldMember oldBlock oldInside)
  resultsFirst := by
    intro msg mem
    obtain ⟨old, oldMember, -, same⟩ := exists_of_mem_right related mem
    exact same.resultsFirst (sound.resultsFirst old oldMember)
  linked := by
    refine LinkedFrom.of_forall₂ (related.imp ?_) sound.linked
    intro old new ⟨_, same⟩
    exact ⟨same.resultIds, same.useIds⟩

theorem ToolSound.scrubMarker (sound : ToolSound msgs)
    (distinct : ∀ msg ∈ msgs, ∀ block ∈ msg.content, block.KeysDistinct) :
    ToolSound (msgs.map scrubMarker) := by
  refine sound.of_sameTools ?_
  rw [forall₂_map_right_iff, forall₂_same]
  intro msg mem
  refine ⟨rfl, ?_⟩
  rw [SameTools, Wire.scrubMarker, withContent_content, forall₂_map_right_iff, forall₂_same]
  exact fun block inside => SameToolFields.remove (distinct msg mem block inside)

theorem ToolSound.appendSentinel (sound : ToolSound msgs) (supportsAssistantPrefill : Bool) :
    ToolSound (appendSentinel supportsAssistantPrefill msgs) := by
  unfold Wire.appendSentinel
  split
  · next last _ =>
      split
      · have plain : ∀ block ∈ (sentinelMessage last).content, hasType "tool_use" block = false ∧
              hasType "tool_result" block = false := by
          simp [sentinelMessage, textBlock, hasType, Value.getStr, Value.get, lookup, Value.asStr]
        refine ⟨?_, ?_, ?_⟩
        · rw [forall_mem_append, forall_mem_singleton]
          refine ⟨sound.fits, fun block inside => ?_⟩
          obtain ⟨noUse, noResult⟩ := plain block inside
          simp [BlockFits, noUse, noResult]
        · rw [forall_mem_append, forall_mem_singleton]
          exact ⟨sound.resultsFirst, resultsFirst_of_none
            fun block inside => (plain block inside).2⟩
        · exact LinkedFrom.append_plain (resultIds_eq_empty fun block inside =>
              (plain block inside).2)
            (useIds_eq_empty fun block inside => (plain block inside).1)
            sound.linked
      · exact sound
  · exact sound

theorem sameTools_markLastBlockCacheControl (msg : Message) : SameTools msg.content
      (markLastBlockCacheControl msg).content := by
  rcases eq_nil_or_concat msg.content with
    empty | ⟨front, last, shape⟩
  · simp [markLastBlockCacheControl, empty, SameTools]
  · rw [concat_eq_append] at shape
    simp only [markLastBlockCacheControl, shape, getLast?_concat,
      withContent_content, dropLast_concat]
    refine rel_append ?_ (.cons (.insert last _) .nil)
    exact forall₂_same.mpr fun block _ => ⟨rfl, rfl, rfl⟩

theorem ToolSound.applyHistoryCacheControl (sound : ToolSound msgs) :
    ToolSound (applyHistoryCacheControl msgs) := by
  refine sound.of_sameTools ((applyHistoryCacheControl_forall₂ msgs).imp ?_)
  rintro old new (rfl | ⟨-, rfl⟩)
  · exact ⟨rfl, forall₂_same.mpr fun block _ => ⟨rfl, rfl, rfl⟩⟩
  · exact ⟨markLastBlockCacheControl_role old, sameTools_markLastBlockCacheControl old⟩

theorem ToolSound.stripThinkingPass (sound : ToolSound msgs)
    (wellRoled : ∀ msg ∈ msgs, WellRoled RawThinking msg) :
    ToolSound (stripThinkingFromNonLatestAssistantMessages msgs) := by
  unfold stripThinkingFromNonLatestAssistantMessages
  split
  · refine (sound.stripThinking.scrubMarker ?_).filter _ ?_
    · intro msg mem block inside
      exact WireBlock.keysDistinct (WellRoled.of_narrows (narrows_stripThinking msgs) wellRoled
          msg mem block inside)
    · intro msg _ removed
      simpa using (Bool.or_eq_false_iff.mp removed).2
  · exact sound

/-! ## The result -/

/--
For every history whose raw blocks are thinking blocks and every choice of
capabilities, each call in the returned array is answered by the next message,
which begins with the answers, and nothing else is answered.
-/
theorem conversation_adjacent (env : WireEnvironment) (capabilities : Capabilities)
    (input : List ResponseItem)
    (rawThinking : ∀ item ∈ input, ∀ block ∈ rawWireBlock item, RawThinking block) :
    Adjacent (conversationToAnthropicMessages env capabilities input) := by
  have wellRoled := wellRoled_roleRuns env capabilities.supportsImage rawThinking
  have hoisted := toolSound_hoisted wellRoled
  have stripped := hoisted.stripThinkingPass (WellRoled.of_narrows
      ((narrows_adjacency _).trans (narrows_hoist _)) wellRoled)
  have closed := stripped.appendSentinel capabilities.supportsAssistantPrefill
  refine ToolSound.adjacent ?_
  simp only [historyMessages, translateItems_eq_roleRuns]
  split
  · exact closed.applyHistoryCacheControl
  · exact closed

/-- A replayed thought, a call and its output, with text in between. -/
def answeredCall : List ResponseItem := [ .inputMessage "user" "q",
  .reasoning none [] none none none (some (.object [("type", .string "thinking"),
      ("thinking", .string "t"), ("signature", .string "s")])),
  .functionCall none "f" none "\x7b\x7d" "c",
  .inputMessage "user" "w",
  .functionCallOutput "c" ⟨.text "r", none⟩]

theorem conversation_adjacent_answeredCall : (conversationToAnthropicMessages offlineEnvironment
        ⟨true, true, false⟩ answeredCall).length = 3 ∧
      Adjacent (conversationToAnthropicMessages offlineEnvironment
          ⟨true, true, false⟩ answeredCall) := by
  refine ⟨by decide +kernel, conversation_adjacent _ _ _ ?_⟩
  simp [answeredCall, ResponseItem.inputMessage, rawWireBlock,
    RawThinking, isThinking, hasType, Value.getStr, Value.get, lookup,
    Value.asStr, Value.KeysDistinct]

end Codex.Anthropic.ToolAdjacency
