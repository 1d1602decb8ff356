import Codex.Anthropic.Passes
import Codex.Library.KeyedRuns

/-!
# The messages before the passes

The translation loop merges what consecutive items contribute while the role
stays the same.  Its result is therefore a function of the input alone: the
maximal runs of one role among the contributions of the cleaned history.
This module states that and lists the shapes of the blocks in each run.
-/

namespace Codex.Anthropic.RoleRuns

open Passes Wire Library.KeyedRuns Protocol.JsonValue Protocol.Models List

/-! ## Runs of one role -/

variable (first second : Message)

/-- Two messages as one, with the role of the first. -/
def join : Message where
  role := first.role
  content := first.content ++ second.content
  sources := first.sources ++ second.sources

theorem role_join : (join first second).role = first.role := rfl

theorem join_assoc (first second third : Message) :
    join (join first second) third = join first (join second third) := by
  simp [join]

variable (env : WireEnvironment) (supportsImage : Bool) (input : List ResponseItem)

/-- What the items of a history contribute, in order. -/
def contributions : List Message :=
  ((cleanOrphanedToolCalls input).flatMap
    (translateItem env supportsImage 0)).map Message.ofContribution

def roleRuns : List Message := runs Message.role join (contributions env supportsImage input)

variable (env : WireEnvironment) (supportsImage : Bool)

/-- A call without an id is an orphan, so no id is ever hashed. -/
theorem translateItem_of_keepsItem
    {paired : String → Bool} (messageCount : Nat) {item : ResponseItem}
    (keeps : keepsItem paired item = true) :
    translateItem env supportsImage messageCount item = translateItem env supportsImage 0 item := by
  cases item with
  | localShellCall id callId status action | toolSearchCall id callId status execution args =>
    cases callId with
    | none => simp [keepsItem] at keeps
    | some callId => rfl
  | _ => rfl

theorem appendToRole_eq_appendLast (messages : List Message) (contribution : Contribution) :
    appendToRole messages contribution = appendLast Message.role join messages
        (Message.ofContribution contribution) := by
  cases last : messages.getLast? with
  | none => simp only [appendToRole, appendLast, last]
  | some message =>
    simp only [appendToRole, appendLast, last]
    rfl

theorem foldl_appendItem (items : List ResponseItem) (settled : ∀ item ∈ items, ∀ messageCount,
      translateItem env supportsImage messageCount item = translateItem env supportsImage 0 item)
    (messages : List Message) :
    items.foldl (appendItem env supportsImage) messages =
      ((items.flatMap (translateItem env supportsImage 0)).map
        Message.ofContribution).foldl (appendLast Message.role join) messages := by
  induction items generalizing messages with
  | nil => rfl
  | cons item rest ih =>
    rw [forall_mem_cons] at settled
    rw [foldl_cons, ih settled.2, flatMap_cons, map_append, foldl_append, appendItem, settled.1]
    simp only [foldl_map, ← appendToRole_eq_appendLast]

theorem translateItems_eq_roleRuns (input : List ResponseItem) :
    translateItems env supportsImage (cleanOrphanedToolCalls input) =
      roleRuns env supportsImage input := by
  rw [translateItems, foldl_appendItem, roleRuns, contributions]
  · exact foldl_appendLast_eq_runs role_join join_assoc _
  · intro item mem messageCount
    exact translateItem_of_keepsItem _ _ _ (mem_filter.mp mem).2

/-! ## Shapes of blocks -/

def rawWireBlock : ResponseItem → Option Value
  | .reasoning _ _ _ _ _ rawWireBlock => rawWireBlock
  | _ => none

/--
The blocks that the translation writes under a role, where `raw` is what is
known of the raw blocks of the history.
-/
inductive WireBlock (raw : Value → Prop) : Role → Value → Prop where
  | text (role : Role) (text : String) : WireBlock raw role (textBlock text)
  | image (role : Role) (imageUrl : String) : WireBlock raw role (imageBlock true imageUrl)
  | toolUse (id name : String) (input : Value) :
      WireBlock raw .assistant (toolUseBlock id name input)
  | toolResult (toolUseId : String) (content : Value) :
      WireBlock raw .user (toolResultBlock toolUseId content)
  | replayed (block : Value) (known : raw block) : WireBlock raw .assistant block
  | rebuilt (text signature : String) : WireBlock raw .assistant (rebuiltThinking text signature)
  | rebuiltRedacted (data : String) : WireBlock raw .assistant (rebuiltRedactedThinking data)

def WellRoled (raw : Value → Prop) (message : Message) : Prop :=
  ∀ block ∈ message.content, WireBlock raw message.role block

section Shapes

variable {raw : Value → Prop}

theorem wireBlock_contentBlock (role : Role) (supportsImage : Bool) (item : ContentItem) :
    WireBlock raw role (contentBlock supportsImage item) := by
  cases item with
  | inputText text | outputText text => exact .text role text
  | inputImage imageUrl detail =>
    cases supportsImage with
    | true => exact .image role imageUrl
    | false => exact .text role _

theorem wireBlock_reasoningBlocks {summary : List ReasoningItemReasoningSummary}
    {content : Option (List ReasoningItemContent)}
    {encryptedContent : Option String} {rawBlock : Option Value}
    (known : ∀ block ∈ rawBlock, raw block) :
    ∀ block ∈ reasoningBlocks summary content encryptedContent rawBlock,
      WireBlock raw .assistant block := by
  intro block mem
  unfold reasoningBlocks at mem
  split at mem
  · next rawBlock =>
      split at mem
      · simp at mem
      · rw [mem_singleton] at mem
        exact .replayed block (known block (by simp [mem]))
  · split at mem
    · rw [mem_singleton] at mem
      exact mem ▸ .rebuiltRedacted _
    · obtain ⟨text, -, rfl⟩ := mem_map.mp mem
      exact .rebuilt _ _

theorem wellRoled_translateItem {env : WireEnvironment} {supportsImage : Bool}
    {messageCount : Nat} {item : ResponseItem} (known : ∀ block ∈ rawWireBlock item, raw block)
    {contribution : Contribution}
    (mem : contribution ∈ translateItem env supportsImage messageCount item) :
    WellRoled raw (Message.ofContribution contribution) := by
  cases item with
  | message id role content phase =>
    simp only [translateItem] at mem
    split at mem
    · simp at mem
    · split at mem
      · simp at mem
      · rw [mem_singleton] at mem
        subst mem
        intro block inside
        obtain ⟨part, -, rfl⟩ := mem_map.mp inside
        exact wireBlock_contentBlock _ _ _
  | reasoning id summary content encryptedContent metadata rawBlock =>
    obtain ⟨block, inside, rfl⟩ := mem_map.mp mem
    intro other same
    obtain rfl := mem_singleton.mp same
    exact wireBlock_reasoningBlocks known _ inside
  | _ =>
    simp only [translateItem, mem_singleton, not_mem_nil] at mem
    try
      subst mem
      intro block inside
      obtain rfl := mem_singleton.mp inside
      first
        | exact .toolUse _ _ _
        | exact .toolResult _ _

theorem wellRoled_roleRuns (env : WireEnvironment) (supportsImage : Bool)
    {input : List ResponseItem} (known : ∀ item ∈ input, ∀ block ∈ rawWireBlock item, raw block) :
    ∀ message ∈ roleRuns env supportsImage input, WellRoled raw message := by
  refine forall_mem_runs ?_ ?_
  · intro message mem
    obtain ⟨contribution, inside, rfl⟩ := mem_map.mp mem
    obtain ⟨item, kept, made⟩ := mem_flatMap.mp inside
    exact wellRoled_translateItem (known item (mem_filter.mp kept).1) made
  · intro left right same leftHolds rightHolds block mem
    rcases mem_append.mp mem with inLeft | inRight
    · exact leftHolds block inLeft
    · have shape := rightHolds block inRight
      rwa [← same] at shape

theorem WellRoled.of_narrows {before after : List Message} (narrower : Narrows before after)
    (wellRoled : ∀ message ∈ before, WellRoled raw message) :
    ∀ message ∈ after, WellRoled raw message := by
  intro message mem block inside
  obtain ⟨old, oldMember, sameRole, subset⟩ := narrower message mem
  rw [sameRole]
  exact wellRoled old oldMember block (subset inside)

end Shapes

end Codex.Anthropic.RoleRuns
