import Codex.Context.CompactedHistory
import Codex.Context.HonestTruncation
import Mathlib.Algebra.GroupWithZero.Nat

/-!
# When compacting again changes nothing

A compacted history keeps the newest user messages within a token budget and
cuts the message at which the budget ends.  The marker in the cut message is
not paid for, so that the kept messages exceed the budget and the next
compaction cuts again; without a cut message the history is a fixed point.
-/

namespace Codex.Context.StableCompaction

open Rust.Text Protocol.Models ContextualFragments TextTruncation List
  CompactedHistory ContextHistory
  HonestTruncation
open String (utf8Len utf8Len_nil utf8Len_cons utf8Len_append utf8ByteSize_ofList)

/-! ## A cut message exceeds its budget -/

/-- The two ends fall short of the budget by at most three bytes each. -/
theorem budget_le_of_splits {beginning ending total : Nat} {read front middle back : List Char}
    {state : SplitState}
    (splits : Splits beginning (total - ending) total read front middle back state)
    (isTotal : utf8Len read = total) (long : beginning + ending < total) :
    beginning + ending ≤ utf8Len front + utf8Len back + 6 := by
  have whole := congrArg utf8Len splits.whole
  have fits := splits.fits
  simp only [utf8Len_append] at whole
  obtain ⟨first, rest, shape⟩ : ∃ first rest, middle ++ back = first :: rest := by
    refine exists_cons_of_ne_nil fun empty => ?_
    rw [append_eq_nil_iff] at empty
    rw [empty.1, empty.2] at whole
    simp only [utf8Len_nil] at whole
    omega
  have full := splits.full first (by rw [shape]; rfl)
  have small := first.utf8Size_le_four
  rcases eq_nil_or_concat' middle with rfl | ⟨others, last, rfl⟩
  · simp only [utf8Len_nil] at whole
    omega
  · have early := splits.below others last rfl
    have smallLast := last.utf8Size_le_four
    simp only [utf8Len_append, utf8Len_cons, utf8Len_nil] at whole early
    omega

theorem approxTokenCount_cut {text : String} {remaining : Nat} (positive : 0 < remaining)
    (bounded : text.utf8ByteSize ≤ usizeMax) (exceeds : remaining < approxTokenCount text) :
    remaining < approxTokenCount (truncateText text (.tokens remaining)) := by
  have room : remaining * 4 + 4 ≤ usizeMax ∧ remaining * 4 < text.utf8ByteSize := by
    simp only [approxTokenCount, saturatingAdd, approxBytesPerToken] at exceeds
    generalize usizeMax = largest at *
    omega
  have budget : approxBytesForTokens remaining = remaining * 4 :=
    Nat.min_eq_left (by simp only [approxBytesPerToken]; omega)
  obtain ⟨front, middle, back, state, splits, cut⟩ :=
    exists_splits true (by omega : 0 < remaining * 4) room.2 bounded
  have ends := budget_le_of_splits splits (utf8Len_toList text) (by omega)
  have marked : truncateText text (.tokens remaining) =
      truncateWithByteEstimate text (remaining * 4) true := by
    simp only [truncateText, truncateMiddleWithTokenBudget, budget, Nat.not_le_of_lt room.2,
      and_false, if_false]
    split
    next empty => simp [truncateWithByteEstimate, empty]
    next => rfl
  have size : 7 ≤ (formatTruncationMarker true
      (removedUnits true (text.utf8ByteSize - remaining * 4) middle.length)).utf8ByteSize := by
    have closing : " tokens truncated…".utf8ByteSize = 20 := by decide +kernel
    simp only [formatTruncationMarker, if_true, String.utf8ByteSize_append, closing]
    omega
  rw [marked, cut]
  simp only [approxTokenCount, saturatingAdd, approxBytesPerToken, String.utf8ByteSize_append,
    utf8ByteSize_ofList]
  generalize usizeMax = largest at *
  omega

/-! ## The selection -/

def totalTokens (msgs : List String) : Nat := (msgs.map approxTokenCount).sum

/-- Newest first, no message is too long for what is left of the budget. -/
def neverCuts : Nat → List String → Bool
  | _, [] => true
  | remaining, msg :: older => remaining == 0 ||
      (decide (approxTokenCount msg ≤ remaining) &&
        neverCuts (remaining - approxTokenCount msg) older)

variable {msgs : List String} (remaining : Nat)

theorem selectMessages_of_fits (fits : neverCuts remaining msgs = true) :
    let selected := selectMessages remaining msgs
    selected <+: msgs ∧ totalTokens selected ≤ remaining ∧
      selectMessages remaining selected = selected := by
  induction msgs generalizing remaining with
  | nil => simp [selectMessages, totalTokens]
  | cons msg older ih =>
    by_cases spent : remaining = 0
    · simp [selectMessages, spent, totalTokens]
    · simp only [neverCuts, beq_eq_false_iff_ne.mpr spent, Bool.false_or, Bool.and_eq_true,
        decide_eq_true_eq] at fits
      obtain ⟨kept, within, again⟩ := ih _ fits.2
      have chosen (rest : List String) : selectMessages remaining (msg :: rest) =
          msg :: selectMessages (remaining - approxTokenCount msg) rest := by
        simp only [selectMessages, if_neg spent, if_pos fits.1]
      simp only [chosen, again, and_true, prefix_cons_inj]
      refine ⟨kept, ?_⟩
      simp only [totalTokens, map_cons, sum_cons] at within ⊢
      omega

theorem selectMessages_of_cut (bounded : ∀ msg ∈ msgs, msg.utf8ByteSize ≤ usizeMax)
    (cuts : neverCuts remaining msgs = false) :
    remaining < totalTokens (selectMessages remaining msgs) := by
  induction msgs generalizing remaining with
  | nil => cases cuts
  | cons msg older ih =>
    simp only [neverCuts, Bool.or_eq_false_iff, beq_eq_false_iff_ne, Bool.and_eq_false_iff,
      decide_eq_false_iff_not] at cuts
    obtain ⟨left, cuts⟩ := cuts
    rw [forall_mem_cons] at bounded
    simp only [selectMessages, if_neg left]
    split
    next fits =>
      have more := ih _ bounded.2 (cuts.resolve_left (not_not.mpr fits))
      simp only [totalTokens, map_cons, sum_cons] at more ⊢
      omega
    next exceeds =>
      have more := approxTokenCount_cut (Nat.pos_of_ne_zero left) bounded.1 (by omega)
      simpa [totalTokens] using more

/-! ## Compacting again -/

variable (decoders : FragmentDecoders)

theorem collectUserMessages_text (text : String) :
    collectUserMessages decoders [userTextMessage text] =
      if isContextualUserMessageContent decoders [.inputText text] || isSummaryMessage text then []
      else [text] := by
  have read : userMessageOf decoders (userTextMessage text) =
      if isContextualUserMessageContent decoders [.inputText text] then none else some text := by
    cases prompt : (parseHookPromptFragment decoders text).isSome <;>
      simp [userMessageOf, userTextMessage, isVisibleHookPromptMessage, parseUserMessage,
        isContextualUserMessageContent, isContextualUserFragment, prompt, userMessageTexts,
        isInputImage]
  simp only [collectUserMessages, filterMap_cons, filterMap_nil, read]
  cases isContextualUserMessageContent decoders [.inputText text] <;>
    cases summary : isSummaryMessage text <;> simp [summary]

theorem collectUserMessages_append (items more : List ResponseItem) :
    collectUserMessages decoders (items ++ more) =
      collectUserMessages decoders items ++ collectUserMessages decoders more :=
  filterMap_append

/-- Neither contextual nor a summary. -/
def IsPlain (text : String) : Prop :=
  isContextualUserMessageContent decoders [.inputText text] = false ∧ isSummaryMessage text = false

theorem collectUserMessages_texts {texts : List String}
    (plain : ∀ text ∈ texts, IsPlain decoders text) :
    collectUserMessages decoders (texts.map userTextMessage) = texts := by
  induction texts with
  | nil => rfl
  | cons text texts ih =>
    obtain ⟨⟨visible, ordinary⟩, rest⟩ := forall_mem_cons.mp plain
    rw [map_cons, ← singleton_append, collectUserMessages_append, ih rest,
      collectUserMessages_text, visible, ordinary]
    rfl

/-- At most the first kept message is cut. -/
def KeepsSuffix (kept msgs : List String) : Prop := kept <:+ msgs ∨
  ∃ older msg newer budget, msgs = older ++ msg :: newer ∧
    kept = truncateText msg (.tokens budget) :: newer

/-- The newest messages, within the budget, in a history that compacts to itself. -/
def CompactsStably (initial : List ResponseItem) (msgs : List String) (summary : String)
    (maxTokens : Nat) : Prop :=
  let history := buildCompactedHistoryWithLimit initial msgs summary maxTokens
  ∃ kept, history = initial ++ kept.map userTextMessage ++ [userTextMessage summary] ∧
    KeepsSuffix kept msgs ∧ totalTokens kept ≤ maxTokens ∧
    buildCompactedHistoryWithLimit initial (collectUserMessages decoders history) summary
      maxTokens = history

/-- A compacted history is stable exactly when no message is cut. -/
theorem compaction_stable_iff {initial : List ResponseItem} {msgs : List String}
    {summary : String} {maxTokens : Nat} (positive : 0 < maxTokens)
    (bounded : ∀ msg ∈ msgs, msg.utf8ByteSize ≤ usizeMax)
    (contextOnly : ∀ item ∈ initial, userMessageOf decoders item = none)
    (isSummary : isSummaryMessage summary = true)
    (plain : ∀ text ∈ selectMessages maxTokens msgs.reverse, IsPlain decoders text) :
    CompactsStably decoders initial msgs summary maxTokens ↔
      neverCuts maxTokens msgs.reverse = true := by
  have written : summary.isEmpty = false := by
    rw [String.isEmpty_eq_false_iff]
    rintro rfl
    rw [isSummaryMessage, startsWith, isPrefixOf_iff_prefix] at isSummary
    have empty := String.toList_eq_nil_iff.mp (prefix_nil.mp isSummary)
    exact absurd (String.append_eq_empty_iff.mp empty).2 (by decide)
  have built (msgs : List String) : buildCompactedHistoryWithLimit initial msgs summary maxTokens =
        initial ++ (selectMessages maxTokens msgs.reverse).reverse.map userTextMessage ++
          [userTextMessage summary] := by
    simp only [buildCompactedHistoryWithLimit, if_pos positive, written, Bool.false_eq_true,
      if_false]
  have collected : collectUserMessages decoders (initial ++
      (selectMessages maxTokens msgs.reverse).reverse.map userTextMessage ++
        [userTextMessage summary]) = (selectMessages maxTokens msgs.reverse).reverse := by
    have first : collectUserMessages decoders initial = [] :=
      filterMap_eq_nil_iff.mpr fun item listed => by rw [contextOnly item listed]
    rw [collectUserMessages_append, collectUserMessages_append, first, collectUserMessages_text,
      isSummary, Bool.or_true, collectUserMessages_texts decoders fun text listed =>
        plain text (mem_reverse.mp listed)]
    simp
  rw [CompactsStably, built, collected, built, reverse_reverse]
  have total : totalTokens (selectMessages maxTokens msgs.reverse).reverse =
      totalTokens (selectMessages maxTokens msgs.reverse) := by
    rw [totalTokens, totalTokens, map_reverse, sum_reverse]
  cases cuts : neverCuts maxTokens msgs.reverse with
  | true =>
    obtain ⟨kept, within, again⟩ := selectMessages_of_fits maxTokens cuts
    refine iff_of_true ⟨_, rfl, .inl ?_, total.trans_le within, by rw [again]⟩ rfl
    exact reverse_prefix.mp (by simpa using kept)
  | false =>
    refine iff_of_false ?_ (by simp)
    rintro ⟨kept, same, -, within, -⟩
    have injective : Function.Injective userTextMessage := fun left right equal => by
      simpa [userTextMessage] using equal
    have selected := map_injective_iff.mpr injective (append_cancel_left (append_cancel_right same))
    rw [← selected, total] at within
    exact absurd within (Nat.not_le_of_lt (selectMessages_of_cut maxTokens
      (fun msg listed => bounded msg (mem_reverse.mp listed)) cuts))

def shortRequests : List String := ["fix the test", "and the docs"]

/-- Two messages that fit, behind an instruction. -/
theorem compaction_stable_short :
    CompactsStably plainEnvironment.decoders [.inputMessage "developer" "be brief"] shortRequests
      (summaryPrefix ++ "\n") 6 := by
  have first : (summaryPrefix ++ "\n").toList.head? = some 'T' := by
    unfold summaryPrefix
    repeat rw [String.toList_append, head?_append]
    rfl
  have ordinary : ∀ text ∈ shortRequests, isSummaryMessage text = false := by
    intro text listed
    rw [isSummaryMessage, startsWith_eq_isSome, stripPrefix?_eq_none_of_head _ _ 'T' first]
    · rfl
    · revert text
      decide +kernel
  refine (compaction_stable_iff plainEnvironment.decoders (by decide) (by decide +kernel)
    (by decide +kernel) (by rw [isSummaryMessage, startsWith, isPrefixOf_iff_prefix]) ?_).mpr
      (by decide +kernel)
  have selected : selectMessages 6 shortRequests.reverse = shortRequests.reverse := by
    decide +kernel
  intro text listed
  rw [selected, mem_reverse] at listed
  refine ⟨?_, ordinary text listed⟩
  revert text
  decide +kernel

/-- A message of two tokens is cut to one of seven. -/
theorem cut_message_exceeds_budget : (∀ summary : String, summary.isEmpty = false →
      buildCompactedHistoryWithLimit [] ["abcdefgh"] summary 1 =
        [userTextMessage "ab…1 tokens truncated…gh", userTextMessage summary]) ∧
      approxTokenCount "ab…1 tokens truncated…gh" = 7 := by
  have selected : selectMessages 1 ["abcdefgh"] = ["ab…1 tokens truncated…gh"] := by decide +kernel
  refine ⟨fun summary written => ?_, by decide +kernel⟩
  simp [buildCompactedHistoryWithLimit, selected, written]

end Codex.Context.StableCompaction
