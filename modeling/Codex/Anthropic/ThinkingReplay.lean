import Codex.Anthropic.RoleRuns

/-!
# Replaying the thinking of the latest assistant message

The provider verifies the thinking blocks of the latest assistant message, so
they must be the raw blocks of the turn and nothing else.  Blocks rebuilt from
decomposed fields carry a marker until the thinking pass drops them.
-/

namespace Codex.Anthropic.ThinkingReplay

open List hiding lookup
open Passes RoleRuns Wire Library.KeyedRuns Protocol.JsonValue Protocol.Models Message

/-! ## The property -/

/-- A raw block as the parser of the messages stream stores it. -/
def UnmarkedThinking (block : Value) : Prop := isThinking block = true ∧
    block.get reconstructedThinkingMarker = none

/-- The raw block that an item replays, unless its text is empty. -/
def replayedBlock (item : ResponseItem) : Option Value := (rawWireBlock item).filter fun block =>
    !isUnreplayableEmptyThinking block

def replayed (items : List ResponseItem) : List Value := items.filterMap replayedBlock

def assistants (messages : List Message) : List Message := messages.filter Message.isAssistant

/--
Thinking is replayed faithfully: no marker is left, thinking stands in the
last assistant message only, and it is what the reasoning items merged into
that message replay.
-/
structure ThinkingFidelity (messages : List Message) : Prop where
  unmarked : ∀ message ∈ messages, ∀ block ∈ message.content,
    block.get reconstructedThinkingMarker = none
  notInUser : ∀ message ∈ messages, message.role = .user →
    ∀ block ∈ message.content, isThinking block = false
  onlyInLatest : ∀ message ∈ (assistants messages).dropLast,
    ∀ block ∈ message.content, isThinking block = false
  verbatim : ∀ message ∈ (assistants messages).getLast?,
    message.content.filter isThinking = replayed message.sources

/-- Whether an assistant message says something besides thinking. -/
def speaks (message : Message) : Bool := message.content.any fun block => !isThinking block

/--
The condition on the assistant runs that adjacency leaves.  Either the newest
one has a block that is not rebuilt thinking, or the newest older one that says
something has no raw thinking to replay.
-/
def replaySafe (runs : List Message) : Bool :=
  match runs.getLast? with
  | none => true
  | some latest =>
    (latest.content.any fun block => !(isThinking block && isReconstructed block)) ||
    ((runs.dropLast.filter speaks).getLast?).all fun message => (replayed message.sources).isEmpty

def assistantRuns (env : WireEnvironment) (supportsImage : Bool)
    (input : List ResponseItem) : List Message :=
  (adjacentRuns none (roleRuns env supportsImage input)).filter
    fun run => run.isAssistant && !run.content.isEmpty

/-! ## Raw thinking in a run -/

/-- Whether a block is thinking that was not rebuilt. -/
def isRawThinking (block : Value) : Bool := isThinking block && !isReconstructed block

/-- The raw thinking of a message is what its items replay. -/
def Verbatim (message : Message) : Prop :=
  message.content.filter isRawThinking = replayed message.sources

variable {block : Value}

theorem UnmarkedThinking.isRawThinking
    (raw : UnmarkedThinking block) : isRawThinking block = true := by
  simp [ThinkingReplay.isRawThinking, isReconstructed, raw.1, raw.2]

theorem filter_contentBlocks (supportsImage : Bool) (content : List ContentItem) :
    (content.map (contentBlock supportsImage)).filter isRawThinking = [] := by
  rw [filter_eq_nil_iff]
  intro block mem
  obtain ⟨item, -, rfl⟩ := mem_map.mp mem
  cases item <;> cases supportsImage <;>
    simp [contentBlock, textBlock, imageBlock, isRawThinking, isThinking,
      hasType, Value.getStr, Value.get, lookup, Value.asStr]

theorem filter_reasoningBlock (id : Option String) {summary : List ReasoningItemReasoningSummary}
    {content : Option (List ReasoningItemContent)} {encryptedContent : Option String}
    (metadata : Option (Option String)) {rawBlock : Option Value}
    (known : ∀ block ∈ rawBlock, UnmarkedThinking block)
    (mem : block ∈ reasoningBlocks summary content encryptedContent rawBlock) :
    [block].filter isRawThinking = replayed [.reasoning id summary content encryptedContent metadata
        rawBlock] := by
  cases rawBlock with
  | some raw =>
    simp only [reasoningBlocks] at mem
    split at mem
    · simp at mem
    · next replayable =>
        obtain rfl := mem_singleton.mp mem
        have genuine := (known block rfl).isRawThinking
        have replays : replayedBlock (.reasoning id summary content
            encryptedContent metadata (some block)) = some block := by
          simp [replayedBlock, rawWireBlock, Option.filter, replayable]
        rw [replayed, filterMap_cons_some replays, filter_cons_of_pos genuine]
        rfl
  | none =>
    have rebuilt : isRawThinking block = false := by
      simp only [reasoningBlocks] at mem
      split at mem
      · obtain rfl := mem_singleton.mp mem
        rfl
      · obtain ⟨text, -, rfl⟩ := mem_map.mp mem
        rfl
    simp [rebuilt, replayed, replayedBlock, rawWireBlock]

variable (env : WireEnvironment)

theorem verbatim_translateItem {supportsImage : Bool} {messageCount : Nat} {item : ResponseItem}
    (known : ∀ block ∈ rawWireBlock item, UnmarkedThinking block) {contribution : Contribution}
    (mem : contribution ∈ translateItem env supportsImage messageCount item) :
    Verbatim (ofContribution contribution) := by
  cases item with
  | message id role content phase =>
    simp only [translateItem] at mem
    split at mem
    · simp at mem
    · split at mem
      · simp at mem
      · rw [mem_singleton] at mem
        subst mem
        exact filter_contentBlocks supportsImage content
  | reasoning id summary content encryptedContent metadata rawBlock =>
    obtain ⟨block, inside, rfl⟩ := mem_map.mp mem
    exact filter_reasoningBlock _ _ known inside
  | _ =>
    simp only [translateItem, mem_singleton, not_mem_nil] at mem
    try
      subst mem
      rfl

variable {input : List ResponseItem}

theorem verbatim_roleRuns {supportsImage : Bool}
    (known : ∀ item ∈ input, ∀ block ∈ rawWireBlock item, UnmarkedThinking block) :
    ∀ message ∈ roleRuns env supportsImage input, Verbatim message := by
  refine forall_mem_runs ?_ ?_
  · intro message mem
    obtain ⟨contribution, inside, rfl⟩ := mem_map.mp mem
    obtain ⟨item, kept, made⟩ := mem_flatMap.mp inside
    exact verbatim_translateItem _ (known item (mem_filter.mp kept).1) made
  · intro left right _ leftHolds rightHolds
    simp only [Verbatim, join, filter_append, replayed, filterMap_append] at leftHolds rightHolds ⊢
    rw [leftHolds, rightHolds]

/-! ## The assistant messages after each pass -/

theorem filter_stripUnmatched (kind idKey : String) (neighbourIds : List String)
    (content : List Value) {test : Value → Bool}
    (apart : ∀ block, hasType kind block = true → test block = false) :
    (stripUnmatched kind idKey neighbourIds content).filter test = content.filter test := by
  simp only [stripUnmatched]
  split_ifs
  · rfl
  · rw [filter_filter]
    congr 1
    funext block
    cases typed : hasType kind block with
    | false => simp
    | true => simp [apart block typed]

theorem Verbatim.cleanMessage {message : Message}
    (verbatim : Verbatim message) (prev next : Option Message) :
    Verbatim (cleanMessage prev next message) := by
  have apart : ∀ kind, kind ≠ "thinking" → kind ≠ "redacted_thinking" →
      ∀ block, hasType kind block = true → isRawThinking block = false := by
    intro kind notPlain notRedacted block typed
    simp [isRawThinking, isThinking_of_hasType notPlain notRedacted typed]
  rw [Verbatim, cleanMessage_sources, ← verbatim, Wire.cleanMessage]
  split <;> exact filter_stripUnmatched _ _ _ _ (apart _ (by decide) (by decide))

variable {runs : List Message}

theorem verbatim_adjacentRuns (prev : Option Message)
    (verbatim : ∀ run ∈ runs, Verbatim run) : ∀ run ∈ adjacentRuns prev runs, Verbatim run := by
  induction runs generalizing prev with
  | nil => simp [adjacentRuns]
  | cons run rest ih =>
    rw [forall_mem_cons] at verbatim
    rw [adjacentRuns, forall_mem_cons]
    exact ⟨verbatim.1.cleanMessage _ _, ih _ verbatim.2⟩

variable (messages : List Message)

theorem assistants_hoist : assistants (hoistToolResultsToFront messages) = assistants messages := by
  induction messages with
  | nil => rfl
  | cons message rest ih =>
    simp only [assistants, hoistToolResultsToFront, map_cons, filter_cons] at ih ⊢
    rw [ih]
    cases role : message.role with
    | user => simp [isAssistant, role]
    | assistant => rw [hoistMessage_of_assistant message role]

theorem isAssistant_congr {left right : Message} (sameRole : left.role = right.role) :
    left.isAssistant = right.isAssistant := by
  rw [isAssistant, sameRole, isAssistant]

theorem assistants_stripThinking : assistants (stripThinking messages) =
      stripThinking (assistants messages) := by
  induction messages with
  | nil => rfl
  | cons message rest ih =>
    have later : (rest.filter isAssistant).any
        isAssistant = rest.any isAssistant := by
      simp
    have same := isAssistant_congr (stripMessage_role (!rest.any isAssistant) message)
    rw [assistants] at ih ⊢
    rw [stripThinking, assistants]
    cases speaker : message.isAssistant with
    | true =>
      rw [filter_cons_of_pos (same.trans speaker), filter_cons_of_pos speaker, stripThinking, later,
        ih]
      rfl
    | false =>
      rw [filter_cons_of_neg (by simp [same, speaker]), filter_cons_of_neg (by simp [speaker]), ih]
      rfl

theorem assistants_stripPass : assistants (stripThinkingFromNonLatestAssistantMessages messages) =
      ((stripThinking (assistants messages)).map scrubMarker).filter
        fun message => !message.content.isEmpty := by
  by_cases any : messages.any isAssistant = true
  · rw [stripThinkingFromNonLatestAssistantMessages, if_pos any, ← assistants_stripThinking]
    simp only [assistants, filter_map, filter_filter]
    congr 2
    funext message
    have same := isAssistant_congr (scrubMarker_role message)
    cases speaker : message.isAssistant <;>
      simp [same, speaker]
  · have none : assistants messages = [] := by simpa [assistants] using any
    rw [stripThinkingFromNonLatestAssistantMessages, if_neg any, none]
    rfl

theorem assistants_appendSentinel (supportsAssistantPrefill : Bool) (messages : List Message) :
    assistants (appendSentinel supportsAssistantPrefill messages) = assistants messages := by
  unfold appendSentinel
  split
  · split
    · simp [assistants, sentinelMessage, isAssistant]
    · rfl
  · rfl

theorem assistants_applyHistoryCacheControl :
    assistants (applyHistoryCacheControl messages) = assistants messages := by
  have related := applyHistoryCacheControl_forall₂ messages
  generalize applyHistoryCacheControl messages = marked at related ⊢
  induction related with
  | nil => rfl
  | cons head _ ih =>
    rw [assistants, assistants] at ih ⊢
    rcases head with rfl | ⟨user, rfl⟩
    · simp only [filter_cons, ih]
    · simp [isAssistant, user, ih]

variable (capabilities : Capabilities)

theorem assistants_historyMessages (input : List ResponseItem) :
    assistants (historyMessages env capabilities input) =
      ((stripThinking (assistantRuns env capabilities.supportsImage input)).map scrubMarker).filter
        fun message => !message.content.isEmpty := by
  have runs : assistants (cleanOrphanedToolBlocksByAdjacency
      (roleRuns env capabilities.supportsImage input)) =
        assistantRuns env capabilities.supportsImage input := by
    rw [assistants, cleanOrphanedToolBlocksByAdjacency, cleanFrom_eq_adjacentRuns, filter_filter]
    rfl
  simp only [historyMessages, translateItems_eq_roleRuns]
  split
  · rw [assistants_applyHistoryCacheControl, assistants_appendSentinel,
      assistants_stripPass, assistants_hoist, runs]
  · rw [assistants_appendSentinel, assistants_stripPass, assistants_hoist, runs]

/-! ## No marker and no thinking outside the assistant -/

/-- A block that is not thinking and carries no marker. -/
def Plain (block : Value) : Prop := isThinking block = false ∧
    block.get reconstructedThinkingMarker = none

/-- User messages hold plain blocks. -/
def UsersPlain (messages : List Message) : Prop := ∀ message ∈ messages, message.role = .user →
    ∀ block ∈ message.content, Plain block

theorem WireBlock.plain (shape : WireBlock UnmarkedThinking .user block) : Plain block := by
  cases shape <;> exact ⟨rfl, rfl⟩

theorem WireBlock.unmarked {role : Role} (shape : WireBlock UnmarkedThinking role block)
    (kept : (isThinking block && isReconstructed block) = false) :
    block.get reconstructedThinkingMarker = none := by
  cases shape with
  | replayed block known => exact known.2
  | rebuilt | rebuiltRedacted => exact Bool.noConfusion kept
  | _ => rfl

variable {messages : List Message}

theorem usersPlain_of_wellRoled (wellRoled : ∀ message ∈ messages,
      WellRoled UnmarkedThinking message) : UsersPlain messages := by
  intro message mem user block inside
  have shape := wellRoled message mem block inside
  rw [user] at shape
  exact WireBlock.plain shape

theorem UsersPlain.of_narrows {before after : List Message}
    (plain : UsersPlain before) (narrower : Narrows before after) : UsersPlain after := by
  intro message mem user block inside
  obtain ⟨old, oldMember, sameRole, subset⟩ := narrower message mem
  exact plain old oldMember (sameRole.symm.trans user) block (subset inside)

theorem UsersPlain.stripPass (plain : UsersPlain messages) : UsersPlain
      (stripThinkingFromNonLatestAssistantMessages messages) := by
  unfold stripThinkingFromNonLatestAssistantMessages
  split
  · intro message mem user block inside
    obtain ⟨stripped, strippedMember, rfl⟩ := mem_map.mp (mem_filter.mp mem).1
    obtain ⟨source, sourceInside, rfl⟩ := mem_map.mp inside
    have sourcePlain := plain.of_narrows (narrows_stripThinking messages) stripped
        strippedMember user source sourceInside
    rwa [source.remove_of_get_none sourcePlain.2]
  · exact plain

theorem UsersPlain.appendSentinel (plain : UsersPlain messages) (supportsAssistantPrefill : Bool) :
    UsersPlain (appendSentinel supportsAssistantPrefill messages) := by
  unfold Wire.appendSentinel
  split
  · split
    · intro message mem user block inside
      rcases mem_append.mp mem with old | new
      · exact plain message old user block inside
      · obtain rfl := mem_singleton.mp new
        obtain rfl := mem_singleton.mp inside
        exact ⟨rfl, rfl⟩
    · exact plain
  · exact plain

theorem Plain.insert (plain : Plain block)
    (field : Value) : Plain (block.insert "cache_control" field) := by
  refine ⟨?_, ?_⟩
  · simpa [isThinking, hasType] using plain.1
  · rw [Value.get_insert_ne _ _ (by decide)]
    exact plain.2

theorem UsersPlain.applyHistoryCacheControl (plain : UsersPlain messages) :
    UsersPlain (applyHistoryCacheControl messages) := by
  intro message mem user block inside
  obtain ⟨old, oldMember, rfl | ⟨oldUser, rfl⟩⟩ :=
    exists_of_mem_right (applyHistoryCacheControl_forall₂ messages) mem
  · exact plain message oldMember user block inside
  · have blocks := plain old oldMember oldUser
    unfold markLastBlockCacheControl at inside
    split at inside
    · next last isLast =>
        rcases mem_append.mp inside with front | marked
        · exact blocks block (dropLast_subset _ front)
        · obtain rfl := mem_singleton.mp marked
          exact (blocks last (mem_of_getLast? isLast)).insert _
    · exact blocks block inside

theorem usersPlain_historyMessages
    (known : ∀ item ∈ input, ∀ block ∈ rawWireBlock item, UnmarkedThinking block) :
    UsersPlain (historyMessages env capabilities input) := by
  have runs := usersPlain_of_wellRoled (wellRoled_roleRuns env capabilities.supportsImage known)
  have closed := ((runs.of_narrows ((narrows_adjacency _).trans
      (narrows_hoist _))).stripPass).appendSentinel capabilities.supportsAssistantPrefill
  simp only [historyMessages, translateItems_eq_roleRuns]
  split
  · exact closed.applyHistoryCacheControl
  · exact closed

/-! ## Stripping the assistant runs -/

theorem unmarked_stripThinking (assistant : ∀ run ∈ runs, run.role = .assistant)
    (wellRoled : ∀ run ∈ runs, WellRoled UnmarkedThinking run) :
    ∀ message ∈ stripThinking runs, ∀ block ∈ message.content,
      block.get reconstructedThinkingMarker = none := by
  intro message mem block inside
  obtain ⟨old, oldMember, latest, rfl⟩ := exists_of_mem_right (stripThinking_forall₂ runs) mem
  simp only [stripMessage, isAssistant, assistant old oldMember, beq_self_eq_true, if_true,
    withContent_content, mem_filter] at inside
  refine WireBlock.unmarked (wellRoled old oldMember block inside.1) ?_
  have test := inside.2
  cases latest with
  | true => rwa [if_pos rfl, Bool.not_eq_true'] at test
  | false =>
    rw [if_neg Bool.false_ne_true, Bool.not_eq_true'] at test
    rw [test, Bool.false_and]

theorem map_scrubMarker_stripThinking (assistant : ∀ run ∈ runs, run.role = .assistant)
    (wellRoled : ∀ run ∈ runs, WellRoled UnmarkedThinking run) :
    (stripThinking runs).map scrubMarker = stripThinking runs := by
  refine map_congr_left (g := id) ?_ |>.trans (map_id _)
  intro message mem
  have unmarked := unmarked_stripThinking assistant wellRoled message mem
  have content : message.content.map (·.remove reconstructedThinkingMarker) = message.content := by
    refine map_congr_left (g := id) ?_ |>.trans (map_id _)
    exact fun block inside => block.remove_of_get_none (unmarked block inside)
  rw [scrubMarker, content]
  rfl

variable {message : Message}

theorem stripMessage_content (latest : Bool) (assistant : message.role = .assistant) :
    (stripMessage latest message).content = message.content.filter fun block =>
        if latest then !(isThinking block && isReconstructed block)
        else !isThinking block := by
  simp [stripMessage, isAssistant, assistant]

theorem stripThinking_concat (older : List Message) {latest : Message}
    (assistant : latest.role = .assistant) :
    stripThinking (older ++ [latest]) =
      older.map (stripMessage false) ++ [stripMessage true latest] := by
  induction older with
  | nil => simp [stripThinking]
  | cons message rest ih =>
    have later : (rest ++ [latest]).any isAssistant = true := by simp [isAssistant, assistant]
    rw [cons_append, stripThinking, later, ih]
    rfl

theorem filter_map_stripMessage {older : List Message}
    (assistant : ∀ message ∈ older, message.role = .assistant) :
    ((older.map (stripMessage false)).filter fun message => !message.content.isEmpty) =
      (older.filter speaks).map (stripMessage false) := by
  rw [filter_map]
  congr 1
  refine filter_congr fun message mem => ?_
  rw [Function.comp_apply, stripMessage_content false (assistant message mem),
    not_isEmpty_filter]
  rfl

theorem noThinking_stripMessage (assistant : message.role = .assistant) :
    ∀ block ∈ (stripMessage false message).content, isThinking block = false := by
  intro block inside
  rw [stripMessage_content false assistant] at inside
  simpa using (mem_filter.mp inside).2

theorem filter_isThinking_latest (assistant : message.role = .assistant)
    (verbatim : Verbatim message) :
    (stripMessage true message).content.filter isThinking = replayed message.sources := by
  rw [stripMessage_content true assistant, filter_filter, ← verbatim]
  congr 1
  funext block
  cases thinking : isThinking block <;>
    simp [isRawThinking, thinking]

/-! ## The result -/

section Latest

variable {older : List Message} {latest : Message}

/-- The messages left of the assistant runs, oldest first. -/
def leftOver (runs : List Message) : List Message :=
  (stripThinking runs).filter fun message => !message.content.isEmpty

theorem leftOver_concat (olderAssistant : ∀ run ∈ older, run.role = .assistant)
    (assistant : latest.role = .assistant) :
    leftOver (older ++ [latest]) = (older.filter speaks).map (stripMessage false) ++
      bif latest.content.any fun block => !(isThinking block && isReconstructed block) then
        [stripMessage true latest] else [] := by
  rw [leftOver, stripThinking_concat older assistant, filter_append,
    filter_map_stripMessage olderAssistant, filter_singleton,
    stripMessage_content true assistant, not_isEmpty_filter]
  rfl

end Latest

theorem noThinking_dropLast_leftOver (assistant : ∀ run ∈ runs, run.role = .assistant) :
    ∀ message ∈ (leftOver runs).dropLast, ∀ block ∈ message.content, isThinking block = false := by
  rcases eq_nil_or_concat runs with rfl | ⟨older, latest, rfl⟩
  · simp [leftOver, stripThinking]
  rw [concat_eq_append] at assistant ⊢
  rw [forall_mem_append, forall_mem_singleton] at assistant
  have earlier : ∀ message ∈ (older.filter speaks).map (stripMessage false),
      ∀ block ∈ message.content, isThinking block = false := by
    intro message mem
    obtain ⟨old, oldMember, rfl⟩ := mem_map.mp mem
    exact noThinking_stripMessage (assistant.1 old (mem_filter.mp oldMember).1)
  cases kept : latest.content.any fun block => !(isThinking block && isReconstructed block) with
  | true =>
    rw [leftOver_concat assistant.1 assistant.2, kept, cond_true, dropLast_concat]
    exact earlier
  | false =>
    rw [leftOver_concat assistant.1 assistant.2, kept, cond_false, append_nil]
    exact fun message mem => earlier message (dropLast_subset _ mem)

/-- The last message replays its raw thinking exactly in the safe case. -/
theorem verbatim_getLast?_leftOver_iff
    (assistant : ∀ run ∈ runs, run.role = .assistant) (verbatim : ∀ run ∈ runs, Verbatim run) :
    (∀ message ∈ (leftOver runs).getLast?,
        message.content.filter isThinking = replayed message.sources) ↔
      replaySafe runs = true := by
  rcases eq_nil_or_concat runs with rfl | ⟨older, latest, rfl⟩
  · simp [leftOver, stripThinking, replaySafe]
  rw [concat_eq_append] at assistant verbatim ⊢
  rw [forall_mem_append, forall_mem_singleton] at assistant verbatim
  cases kept : latest.content.any fun block => !(isThinking block && isReconstructed block) with
  | true =>
    have safe : replaySafe (older ++ [latest]) = true := by
      simp only [replaySafe, getLast?_concat, kept, Bool.true_or]
    rw [leftOver_concat assistant.1 assistant.2, kept, cond_true, getLast?_concat, safe]
    simp [filter_isThinking_latest assistant.2 verbatim.2]
  | false =>
    rw [leftOver_concat assistant.1 assistant.2, kept, cond_false, append_nil, getLast?_map]
    simp only [replaySafe, getLast?_concat, kept, Bool.false_or, dropLast_concat]
    cases last : (older.filter speaks).getLast? with
    | none => simp
    | some message =>
      have mem := mem_of_getLast? last
      have stripped : (stripMessage false message).content.filter isThinking = [] := by
        rw [filter_eq_nil_iff]
        intro block inside
        simp [noThinking_stripMessage (assistant.1 message (mem_filter.mp mem).1) block inside]
      simp only [Option.map_some, Option.mem_def, Option.some.injEq, forall_eq', stripped,
        stripMessage_sources, Option.all_some, List.isEmpty_iff]
      exact eq_comm

section Runs

variable {env : WireEnvironment} {supportsImage : Bool} {input : List ResponseItem}

theorem role_of_mem_assistantRuns {run : Message}
    (mem : run ∈ assistantRuns env supportsImage input) : run.role = .assistant := by
  have kept := (Bool.and_eq_true_iff.mp (mem_filter.mp mem).2).1
  simpa [isAssistant] using kept

theorem wellRoled_assistantRuns (rawThinking : ∀ item ∈ input, ∀ block ∈ rawWireBlock item,
      UnmarkedThinking block) :
    ∀ run ∈ assistantRuns env supportsImage input, WellRoled UnmarkedThinking run := by
  have adjacency := Narrows.of_forall₂ (adjacentRuns_forall₂ none
    (roleRuns env supportsImage input))
  exact WellRoled.of_narrows (adjacency.trans (narrows_filter _ _))
    (wellRoled_roleRuns env supportsImage rawThinking)

theorem assistants_eq_leftOver
    (rawThinking : ∀ item ∈ input, ∀ block ∈ rawWireBlock item, UnmarkedThinking block) :
    assistants (historyMessages env capabilities input) =
      leftOver (assistantRuns env capabilities.supportsImage input) := by
  rw [assistants_historyMessages, map_scrubMarker_stripThinking
      (fun _ mem => role_of_mem_assistantRuns mem)
      (wellRoled_assistantRuns rawThinking),
    leftOver]

theorem unmarked_historyMessages {capabilities : Capabilities}
    (rawThinking : ∀ item ∈ input, ∀ block ∈ rawWireBlock item, UnmarkedThinking block) :
    ∀ message ∈ historyMessages env capabilities input, ∀ block ∈ message.content,
        block.get reconstructedThinkingMarker = none := by
  intro message mem block inside
  cases role : message.role with
  | user =>
    exact (usersPlain_historyMessages env capabilities
      rawThinking message mem role block inside).2
  | assistant =>
    have among : message ∈ assistants (historyMessages env capabilities input) :=
      mem_filter.mpr ⟨mem, by simp [isAssistant, role]⟩
    rw [assistants_eq_leftOver capabilities rawThinking] at among
    exact unmarked_stripThinking (fun _ run => role_of_mem_assistantRuns run)
      (wellRoled_assistantRuns rawThinking) message
      (mem_filter.mp among).1 block inside

end Runs

/--
For histories whose raw blocks are unmarked thinking blocks and every choice
of capabilities: thinking is replayed faithfully exactly when the newest
assistant run that adjacency leaves is not made of rebuilt thinking alone, or
no raw thinking was stripped from the message that becomes the latest.
-/
theorem thinkingFidelity_iff
    (env : WireEnvironment) (capabilities : Capabilities)
    (input : List ResponseItem)
    (rawThinking : ∀ item ∈ input, ∀ block ∈ rawWireBlock item, UnmarkedThinking block) :
    ThinkingFidelity (historyMessages env capabilities input) ↔
      replaySafe (assistantRuns env capabilities.supportsImage input) = true := by
  have assistant : ∀ run ∈ assistantRuns env
      capabilities.supportsImage input, run.role = .assistant :=
    fun _ mem => role_of_mem_assistantRuns mem
  have left : assistants (historyMessages env capabilities input) = leftOver _ :=
    assistants_eq_leftOver capabilities rawThinking
  rw [← verbatim_getLast?_leftOver_iff assistant
    (fun run mem => verbatim_adjacentRuns none (verbatim_roleRuns env rawThinking) run
      (mem_filter.mp mem).1), ← left]
  constructor
  · exact fun fidelity => fidelity.verbatim
  · intro verbatim
    have earlier := noThinking_dropLast_leftOver assistant
    rw [← left] at earlier
    exact
      { unmarked := unmarked_historyMessages rawThinking
        notInUser := fun message mem user block inside =>
          (usersPlain_historyMessages env capabilities
            rawThinking message mem user block inside).1
        onlyInLatest := earlier
        verbatim := verbatim }

/-- A thinking block as a stream delivers it. -/
def signedThought : Value := .object [("type", .string "thinking"), ("thinking", .string "t"),
    ("signature", .string "s")]

def thoughtfulTurn : List ResponseItem := [ .inputMessage "user" "q",
  .reasoning none [] none none none (some signedThought),
  .inputMessage "assistant" "a"]

theorem rawThinking_signedThought : UnmarkedThinking signedThought :=
  ⟨by decide +kernel, by decide +kernel⟩

theorem thinkingFidelity_thoughtfulTurn : ThinkingFidelity (historyMessages offlineEnvironment
      ⟨true, true, false⟩ thoughtfulTurn) := by
  refine (thinkingFidelity_iff offlineEnvironment ⟨true, true, false⟩
    thoughtfulTurn ?_).mpr (by decide +kernel)
  simp [thoughtfulTurn, ResponseItem.inputMessage, rawWireBlock, rawThinking_signedThought]

/-- The same turn, followed by one that ends after rebuilt reasoning. -/
def foreignReasoningAfter : List ResponseItem := thoughtfulTurn ++ [ .inputMessage "user" "w",
    .reasoning none [.summaryText "s"] none none none none]

/-- The emptied message is deleted after the older thought is stripped. -/
theorem foreignReasoningAfter_loses_thought : ¬ ThinkingFidelity (historyMessages offlineEnvironment
      ⟨true, true, false⟩ foreignReasoningAfter) := by
  intro fidelity
  have last : (assistants (historyMessages offlineEnvironment
      ⟨true, true, false⟩ foreignReasoningAfter)).getLast? = some ⟨.assistant, [textBlock "a"],
          [.reasoning none [] none none none (some signedThought),
            .inputMessage "assistant" "a"]⟩ := by
    decide +kernel
  have verbatim := fidelity.verbatim _ last
  revert verbatim
  decide +kernel

end Codex.Anthropic.ThinkingReplay
