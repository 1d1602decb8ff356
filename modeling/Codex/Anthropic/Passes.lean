import Codex.Anthropic.Wire
import Codex.Library.MarkedCuts
import Mathlib.Data.List.Forall2

/-!
# What each pass does to the messages

One description for each pass of the Anthropic translation: which blocks it
keeps, in which order, and that it never touches roles.  The adjacency pass
reads a message after it has been cleaned, but its result depends on the
original neighbours only.
-/

namespace Codex.Anthropic.Passes

open Wire Protocol.JsonValue Protocol.Models List
open Library.MarkedCuts (eq_filter_append_filter)

/-! ## Lists -/

theorem exists_of_mem_right {α β : Type*} {related : α → β → Prop}
    {before : List α} {after : List β} (pairs : Forall₂ related before after)
    {new : β} (mem : new ∈ after) : ∃ old ∈ before, related old new := by
  induction pairs with
  | nil => simp at mem
  | cons head _ ih =>
    rcases mem_cons.mp mem with rfl | later
    · exact ⟨_, mem_cons_self, head⟩
    · obtain ⟨old, oldMember, holds⟩ := ih later
      exact ⟨old, mem_cons_of_mem _ oldMember, holds⟩

theorem not_isEmpty_filter (keep : Value → Bool) (content : List Value) :
    (!(content.filter keep).isEmpty) = content.any keep := by
  rw [Bool.eq_iff_iff]
  simp

/-! ## Roles and merged items are kept -/

variable (prev : Option Message) (kind : String) (latest : Bool) (next : Option Message)
  (idKey : String) (messages : List Message) (message : Message)

@[simp]
theorem cleanMessage_role : (cleanMessage prev next message).role = message.role := by
  unfold cleanMessage
  split <;> rfl

@[simp]
theorem cleanMessage_sources : (cleanMessage prev next message).sources = message.sources := by
  unfold cleanMessage
  split <;> rfl

@[simp]
theorem hoistMessage_role : (hoistMessage message).role = message.role := by
  simp only [hoistMessage]
  split_ifs <;> rfl

@[simp]
theorem stripMessage_role : (stripMessage latest message).role = message.role := by
  unfold stripMessage
  split <;> rfl

@[simp]
theorem stripMessage_sources : (stripMessage latest message).sources = message.sources := by
  unfold stripMessage
  split <;> rfl

@[simp]
theorem scrubMarker_role : (scrubMarker message).role = message.role := rfl

@[simp]
theorem markLastBlockCacheControl_role :
    (markLastBlockCacheControl message).role = message.role := by
  unfold markLastBlockCacheControl
  split <;> rfl

/-! ## Adjacency -/

theorem isThinking_of_hasType {kind : String} {block : Value} (notPlain : kind ≠ "thinking")
    (notRedacted : kind ≠ "redacted_thinking") (typed : hasType kind block = true) :
    isThinking block = false := by
  simp only [hasType, beq_iff_eq] at typed
  simp [isThinking, hasType, typed, notPlain, notRedacted]

theorem blockIds_eq_nil {kind : String} {content : List Value}
    (none : ∀ block ∈ content, hasType kind block = false) : blockIds kind idKey content = [] := by
  have empty : content.filter (hasType kind) = [] := by simpa using none
  rw [blockIds, empty, filterMap_nil]

theorem mem_blockIds (id : String) (content : List Value) :
    id ∈ blockIds kind idKey content ↔ ∃ block ∈ content,
        hasType kind block = true ∧ block.getStr idKey = some id := by
  simp [blockIds, and_assoc]

theorem stripUnmatched_sublist (neighbourIds : List String) (content : List Value) :
    (stripUnmatched kind idKey neighbourIds content).Sublist content := by
  simp only [stripUnmatched]
  split_ifs
  · exact Sublist.refl content
  · exact filter_sublist

theorem mem_blockIds_stripUnmatched (id : String) (neighbourIds : List String)
    (content : List Value) :
    id ∈ blockIds kind idKey (stripUnmatched kind idKey neighbourIds content) ↔
      id ∈ blockIds kind idKey content ∧ id ∈ neighbourIds := by
  by_cases matched : (blockIds kind idKey content).all neighbourIds.contains = true
  · have unchanged : stripUnmatched kind idKey neighbourIds content = content := by
      simp only [stripUnmatched, matched, if_true]
    rw [unchanged]
    constructor
    · intro mem
      refine ⟨mem, ?_⟩
      simpa using all_eq_true.mp matched id mem
    · exact And.left
  · simp only [stripUnmatched, matched, Bool.false_eq_true, if_false]
    constructor
    · intro mem
      obtain ⟨block, inside, typed, named⟩ := (mem_blockIds ..).mp mem
      rw [mem_filter] at inside
      simpa [typed, named] using inside.2
    · rintro ⟨mem, shared⟩
      obtain ⟨block, inside, typed, named⟩ := (mem_blockIds ..).mp mem
      refine (mem_blockIds ..).mpr ⟨block, ?_, typed, named⟩
      rw [mem_filter]
      exact ⟨inside, by simp [named, mem, shared]⟩

/-- Only the ids that occur in the content are looked up. -/
theorem stripUnmatched_congr {left right : List String} {content : List Value}
    (agree : ∀ id ∈ blockIds kind idKey content, id ∈ left ↔ id ∈ right) :
    stripUnmatched kind idKey left content = stripUnmatched kind idKey right content := by
  have sameAll : (blockIds kind idKey content).all left.contains =
        (blockIds kind idKey content).all right.contains := by
    rw [Bool.eq_iff_iff, all_eq_true, all_eq_true]
    refine forall₂_congr fun id mem => ?_
    simpa using agree id mem
  have sameFilter : ∀ id : String, ((blockIds kind idKey content).contains id && left.contains id) =
        ((blockIds kind idKey content).contains id && right.contains id) := by
    intro id
    rw [Bool.eq_iff_iff]
    simpa using agree id
  simp only [stripUnmatched, sameAll, sameFilter]

/-- What the adjacency pass leaves, read off the original neighbours. -/
def adjacentRuns (prev : Option Message) : List Message → List Message
  | [] => []
  | run :: rest => cleanMessage prev rest.head? run :: adjacentRuns (some run) rest

theorem cleanMessage_of_cleaned (before next : Option Message) (prev message : Message) :
    cleanMessage (some (cleanMessage before (some message) prev)) next message =
      cleanMessage (some prev) next message := by
  cases role : message.role with
  | assistant => simp only [cleanMessage, role]
  | user =>
    simp only [cleanMessage, role]
    congr 1
    refine stripUnmatched_congr _ _ fun id mem => ?_
    cases previousRole : prev.role with
    | user => simp [previousUseIds, previousRole]
    | assistant =>
      simp only [previousUseIds, previousRole, Message.toolUseIds,
        Message.withContent_role, Message.withContent_content,
        if_true, mem_blockIds_stripUnmatched, nextResultIds, role]
      exact and_iff_left mem

theorem cleanFrom_of_cleaned (before : Option Message) (prev : Message)
    (messages : List Message) :
    cleanFrom (some (cleanMessage before messages.head? prev)) messages =
      adjacentRuns (some prev) messages := by
  induction messages generalizing before prev with
  | nil => rfl
  | cons message rest ih =>
    simp only [cleanFrom, adjacentRuns, head?_cons, cleanMessage_of_cleaned, ih]

theorem cleanFrom_eq_adjacentRuns : cleanFrom none messages = adjacentRuns none messages := by
  cases messages with
  | nil => rfl
  | cons message rest => simp only [cleanFrom, adjacentRuns, cleanFrom_of_cleaned]

theorem map_role_adjacentRuns :
    (adjacentRuns prev messages).map Message.role = messages.map Message.role := by
  induction messages generalizing prev with
  | nil => rfl
  | cons message rest ih => simp [adjacentRuns, ih]

theorem cleanMessage_sublist : (cleanMessage prev next message).content.Sublist
      message.content := by
  unfold cleanMessage
  split <;> exact stripUnmatched_sublist _ _ _ _

/-! ## Hoisting -/

/-- A list whose hits are all in front has the others last. -/
theorem pairwise_of_leading (test : Value → Bool) (content : List Value)
    (leading : (content.takeWhile test).length = (content.filter test).length) :
    content.Pairwise fun earlier later => (!test earlier) = true → (!test later) = true := by
  have parted := @takeWhile_append_dropWhile _ test content
  have none : (content.dropWhile test).filter test = [] := by
    have hits : (content.takeWhile test).filter test = content.takeWhile test :=
      filter_eq_self.mpr fun _ => mem_takeWhile_imp
    have counted := congrArg (fun list => (list.filter test).length) parted
    simp only [filter_append, length_append, hits] at counted
    exact length_eq_zero_iff.mp (by omega)
  have others : ∀ block ∈ content.dropWhile test, (!test block) = true := by simpa using none
  rw [← parted, pairwise_append]
  refine ⟨pairwise_of_forall_mem_list ?_, pairwise_of_forall_mem_list ?_, ?_⟩
  · intro first mem second _ miss
    simp [mem_takeWhile_imp mem] at miss
  · exact fun _ _ second mem _ => others second mem
  · exact fun _ _ second mem _ => others second mem

theorem hoistMessage_content (user : message.role = .user) :
    (hoistMessage message).content = message.content.filter (hasType "tool_result") ++
        message.content.filter fun block => !hasType "tool_result" block := by
  simp only [hoistMessage, user, if_true]
  split_ifs with none leading
  · have absent : ∀ block ∈ message.content, hasType "tool_result" block = false := by
      simpa using none
    have noResults : message.content.filter (hasType "tool_result") = [] := by simpa using absent
    have allOthers : (message.content.filter
        fun block => !hasType "tool_result" block) = message.content := by
      simpa using absent
    rw [noResults, allOthers, nil_append]
  · rw [Bool.and_eq_true] at leading
    have others := pairwise_of_leading _ _ (by simpa using leading.2)
    simpa using eq_filter_append_filter others
  · rfl

theorem hoistMessage_of_assistant (assistant : message.role = .assistant) :
    hoistMessage message = message := by
  simp [hoistMessage, assistant]

theorem hoistMessage_perm : (hoistMessage message).content.Perm message.content := by
  cases role : message.role with
  | user =>
    rw [hoistMessage_content message role]
    exact filter_append_perm _ _
  | assistant => rw [hoistMessage_of_assistant message role]

/-! ## Thinking -/

theorem stripMessage_sublist : (stripMessage latest message).content.Sublist message.content := by
  unfold stripMessage
  split
  · exact filter_sublist
  · exact Sublist.refl _

def keepsMessage (message : Message) : Bool := !message.isAssistant || !message.content.isEmpty

theorem stripMessage_of_user (user : message.role = .user) :
    stripMessage latest message = message := by
  simp [stripMessage, Message.isAssistant, user]

theorem keepsMessage_of_user {message : Message}
    (user : message.role = .user) : keepsMessage message = true := by
  simp [keepsMessage, Message.isAssistant, user]

theorem stripThinking_forall₂ : Forall₂
      (fun before after => ∃ latest, after = stripMessage latest before)
      messages (stripThinking messages) := by
  induction messages with
  | nil => exact Forall₂.nil
  | cons message rest ih => exact .cons ⟨_, rfl⟩ ih

/-! ## Blocks are only removed or moved -/

/-- Every block of the second list was in the first, under its role. -/
def Narrows (before after : List Message) : Prop := ∀ message ∈ after, ∃ old ∈ before,
    message.role = old.role ∧ message.content ⊆ old.content

theorem Narrows.trans {first second third : List Message}
    (inner : Narrows first second) (outer : Narrows second third) : Narrows first third := by
  intro message mem
  obtain ⟨middle, middleMember, sameRole, subset⟩ := outer message mem
  obtain ⟨old, oldMember, oldRole, oldSubset⟩ := inner middle middleMember
  exact ⟨old, oldMember, sameRole.trans oldRole, fun block inside => oldSubset (subset inside)⟩

theorem Narrows.of_forall₂ {before after : List Message} (related : Forall₂
      (fun old new => new.role = old.role ∧ new.content ⊆ old.content)
      before after) :
    Narrows before after :=
  fun _ mem => exists_of_mem_right related mem

theorem narrows_filter (keep : Message → Bool) (messages : List Message) :
    Narrows messages (messages.filter keep) := by
  intro message mem
  exact ⟨message, (mem_filter.mp mem).1, rfl, List.Subset.refl _⟩

theorem adjacentRuns_forall₂ : Forall₂
      (fun old new => new.role = old.role ∧ new.content ⊆ old.content)
      messages (adjacentRuns prev messages) := by
  induction messages generalizing prev with
  | nil => exact Forall₂.nil
  | cons message rest ih =>
    exact .cons ⟨cleanMessage_role _ _ _, (cleanMessage_sublist _ _ _).subset⟩ (ih _)

theorem narrows_adjacency : Narrows messages (cleanOrphanedToolBlocksByAdjacency messages) := by
  rw [cleanOrphanedToolBlocksByAdjacency, cleanFrom_eq_adjacentRuns]
  exact (Narrows.of_forall₂ (adjacentRuns_forall₂ none messages)).trans (narrows_filter _ _)

theorem narrows_hoist : Narrows messages (hoistToolResultsToFront messages) := by
  intro message mem
  obtain ⟨old, oldMember, rfl⟩ := mem_map.mp mem
  exact ⟨old, oldMember, hoistMessage_role old, (hoistMessage_perm old).subset⟩

theorem narrows_stripThinking : Narrows messages (stripThinking messages) := by
  refine Narrows.of_forall₂ ((stripThinking_forall₂ messages).imp ?_)
  rintro old new ⟨latest, rfl⟩
  exact ⟨stripMessage_role _ _, (stripMessage_sublist _ _).subset⟩

/-! ## Cache marks -/

theorem markUsers_forall₂ (budget : Nat) (messages : List Message) : Forall₂
      (fun before after => after = before ∨
        before.role = .user ∧ after = markLastBlockCacheControl before)
      messages (markUsers budget messages) := by
  induction messages generalizing budget with
  | nil => cases budget <;> exact Forall₂.nil
  | cons message rest ih =>
    cases budget with
    | zero =>
      simp only [markUsers]
      exact forall₂_same.mpr fun _ _ => Or.inl rfl
    | succ budget =>
      by_cases user : message.role = .user
      · simp only [markUsers, user, if_true]
        exact .cons (Or.inr ⟨user, rfl⟩) (ih budget)
      · simp only [markUsers, user, if_false]
        exact .cons (Or.inl rfl) (ih (budget + 1))

theorem applyHistoryCacheControl_forall₂ : Forall₂ (fun before after => after = before ∨
        before.role = .user ∧ after = markLastBlockCacheControl before)
      messages (applyHistoryCacheControl messages) := by
  have marked := markUsers_forall₂ 2 messages.reverse
  rw [← reverse_reverse messages, ← forall₂_reverse_iff]
  simpa [applyHistoryCacheControl] using marked

end Codex.Anthropic.Passes
