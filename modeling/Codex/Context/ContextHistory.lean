import Codex.Context.ContextualFragments
import Codex.Context.TextTruncation
import Codex.Library.MarkedCuts
import Mathlib.Data.List.GetD

/-!
# The conversation history

The model of `ContextManager` in `core/src/context_manager/history.rs`: the
recorded items, the version that counts rewrites, and the reference context
baseline that a rollback may clear.
-/

namespace Codex.Context.ContextHistory

open Rust.Text Protocol.Models ContextualFragments TextTruncation List
  Library.MarkedCuts

/--
What recording depends on outside the modelled code: the fragment decoders,
and the 64-bit float product that widens a truncation limit.
-/
structure HistoryEnvironment where
  decoders : FragmentDecoders
  /-- `(limit as f64 * 1.2).ceil() as usize`. -/
  serializationBudget : Nat → Nat

/--
The environment of a session without hook prompts or inter-agent messages,
with the widened limit in exact arithmetic.
-/
def plainEnvironment : HistoryEnvironment where
  decoders := ⟨fun _ => none, fun _ => false⟩
  serializationBudget := fun limit => (limit * 6 + 4) / 5

structure ContextManager where
  items : List ResponseItem
  historyVersion : Nat
  referenceContextItem : Option TurnContextItem
deriving DecidableEq

variable (history : ContextManager)

namespace ContextManager

def new : ContextManager := ⟨[], 0, none⟩

variable (items : List ResponseItem)

def replace : ContextManager :=
  { history with
    items := items
    historyVersion := min (history.historyVersion + 1) u64Max }

@[simp]
theorem replace_items : (history.replace items).items = items := rfl

end ContextManager

/-! ## Recording -/

def isApiMessage : ResponseItem → Bool
  | .message _ role _ _ => role != "system"
  | .compactionTrigger => false
  | .other => false
  | _ => true

variable (env : HistoryEnvironment) (policy : TruncationPolicy)

def processItem (item : ResponseItem) : ResponseItem :=
  let budget := policy.withLimit (env.serializationBudget policy.limit)
  match item with
  | .functionCallOutput callId output =>
    .functionCallOutput callId (truncateFunctionOutputPayload output budget)
  | .customToolCallOutput callId name output =>
    .customToolCallOutput callId name (truncateFunctionOutputPayload output budget)
  | unchanged => unchanged

def recorded (items : List ResponseItem) : List ResponseItem :=
  (items.filter isApiMessage).map (processItem env policy)

def ContextManager.recordItems (history : ContextManager) (items : List ResponseItem) :
    ContextManager :=
  { history with
    items := history.items ++ recorded env policy items }

variable (decoders : FragmentDecoders) (env : HistoryEnvironment)
  (snapshot : List ResponseItem) (policy : TruncationPolicy) (first : Nat)
  (items : List ResponseItem)

@[simp]
theorem recorded_append (more : List ResponseItem) :
    recorded env policy (items ++ more) = recorded env policy items ++
        recorded env policy more := by
  simp [recorded]

@[simp]
theorem isUserTurnBoundary_processItem (item : ResponseItem) :
    isUserTurnBoundary env.decoders (processItem env policy item) =
      isUserTurnBoundary env.decoders item := by
  cases item <;> rfl

theorem isApiMessage_of_boundary {item : ResponseItem}
    (boundary : isUserTurnBoundary decoders item = true) : isApiMessage item = true := by
  cases item with
  | message id role content phase =>
    simp only [isUserTurnBoundary, Bool.or_eq_true, Bool.and_eq_true, beq_iff_eq] at boundary
    rcases boundary with ⟨user, _⟩ | ⟨assistant, _⟩
    · simp [isApiMessage, user]
    · simp [isApiMessage, assistant]
  | _ => simp [isUserTurnBoundary] at boundary

theorem recorded_of_contextual (contextual : ∀ item ∈ items,
      isContextualMessage env.decoders item = true) :
    recorded env policy items = items := by
  induction items with
  | nil => rfl
  | cons item rest ih =>
    have restContextual : ∀ later ∈ rest, isContextualMessage env.decoders later = true :=
      (forall_mem_cons.mp contextual).2
    have itemContextual := contextual item (by simp)
    have restRecorded := ih restContextual
    unfold recorded at restRecorded ⊢
    cases item with
    | message id role content phase =>
      have api : isApiMessage (.message id role content phase) = true := by
        simp only [isContextualMessage, Bool.or_eq_true,
          Bool.and_eq_true, beq_iff_eq] at itemContextual
        rcases itemContextual with ⟨developer, _⟩ | ⟨user, _⟩
        · simp [isApiMessage, developer]
        · simp [isApiMessage, user]
      simp [api, processItem, restRecorded]
    | _ => simp [isContextualMessage] at itemContextual

@[simp]
theorem countP_recorded : (recorded env policy items).countP (isUserTurnBoundary env.decoders) =
      items.countP (isUserTurnBoundary env.decoders) := by
  induction items with
  | nil => rfl
  | cons item rest ih =>
    unfold recorded at ih ⊢
    by_cases api : isApiMessage item = true
    · simp [api, countP_cons, ih]
    · have notBoundary : isUserTurnBoundary env.decoders item = false := by
        by_contra boundary
        exact api (isApiMessage_of_boundary env.decoders (by simpa using boundary))
      simp [api, notBoundary, ih]

/-! ## Rollback -/

def userMessagePositions (decoders : FragmentDecoders) (items : List ResponseItem) : List Nat :=
  positions (isUserTurnBoundary decoders) items

/--
`ContextManager::trim_pre_turn_context_updates`: the adjusted cut and the
reference baseline, which a mixed developer bundle clears.
-/
def trimPreTurnContextUpdates (decoders : FragmentDecoders) (snapshot : List ResponseItem)
    (firstInstructionTurnIdx : Nat) : Nat → Option TurnContextItem → Nat × Option TurnContextItem
  | 0, reference => (0, reference)
  | cutIdx + 1, reference =>
    if firstInstructionTurnIdx < cutIdx + 1 then
      match snapshot[cutIdx]? with
      | some (.message _ role content _) =>
        if role == "developer" &&
            isContextualDevMessageContent content then
          trimPreTurnContextUpdates decoders snapshot firstInstructionTurnIdx cutIdx
            (if hasNonContextualDevMessageContent content then none
              else reference)
        else if role == "user" &&
            isContextualUserMessageContent decoders content then
          trimPreTurnContextUpdates decoders snapshot firstInstructionTurnIdx cutIdx reference
        else (cutIdx + 1, reference)
      | _ => (cutIdx + 1, reference)
    else (cutIdx + 1, reference)

def rollbackCut (userPositions : List Nat) (firstInstructionTurnIdx nFromEnd : Nat) : Nat :=
  if userPositions.length ≤ nFromEnd then firstInstructionTurnIdx
  else userPositions.getD (userPositions.length - nFromEnd) firstInstructionTurnIdx

def ContextManager.dropLastNUserTurns (decoders : FragmentDecoders)
    (history : ContextManager) (numTurns : UInt32) : ContextManager :=
  if numTurns = 0 then history
  else
    let snapshot := history.items
    match userMessagePositions decoders snapshot with
    | [] => history.replace snapshot
    | firstInstructionTurnIdx :: others =>
      let cutIdx :=
        rollbackCut (firstInstructionTurnIdx :: others) firstInstructionTurnIdx numTurns.toNat
      let trimmed :=
        trimPreTurnContextUpdates decoders snapshot
          firstInstructionTurnIdx cutIdx history.referenceContextItem
      { history with referenceContextItem := trimmed.2 }.replace (snapshot.take trimmed.1)

theorem trimPreTurnContextUpdates_succ (cutIdx : Nat) (item : ResponseItem)
    (reference : Option TurnContextItem) (found : snapshot[cutIdx]? = some item)
    (above : first < cutIdx + 1) :
    ∃ cleared, trimPreTurnContextUpdates decoders snapshot first (cutIdx + 1) reference =
        if isContextualMessage decoders item then
          trimPreTurnContextUpdates decoders snapshot first cutIdx cleared
        else (cutIdx + 1, cleared) := by
  cases item with
  | message id role content phase =>
    by_cases developer : (role == "developer" && isContextualDevMessageContent content) = true
    · refine ⟨if hasNonContextualDevMessageContent content then none
        else reference, ?_⟩
      simp only [trimPreTurnContextUpdates, above, found, developer,
        isContextualMessage, Bool.true_or, if_true]
    · refine ⟨reference, ?_⟩
      simp only [trimPreTurnContextUpdates, above, found, isContextualMessage, if_true,
        eq_false_of_ne_true developer, Bool.false_or,
        Bool.false_eq_true, if_false]
  | _ => exact ⟨reference, by simp [trimPreTurnContextUpdates, above, found, isContextualMessage]⟩

variable (reference : Option TurnContextItem)

theorem trimPreTurnContextUpdates_first :
    (trimPreTurnContextUpdates decoders snapshot first first reference).1 = first := by
  cases first <;> simp [trimPreTurnContextUpdates]

/--
Above the first boundary the walk trims exactly the contextual messages at
the end of the kept part.
-/
theorem take_trimPreTurnContextUpdates {cutIdx : Nat} {boundary : ResponseItem}
    (firstFound : snapshot[first]? = some boundary)
    (isBoundary : isUserTurnBoundary decoders boundary = true)
    (above : first < cutIdx) (inside : cutIdx ≤ snapshot.length) :
    snapshot.take (trimPreTurnContextUpdates decoders snapshot first cutIdx reference).1 =
      (snapshot.take cutIdx).rdropWhile (isContextualMessage decoders) := by
  induction cutIdx generalizing reference with
  | zero => omega
  | succ cutIdx ih =>
    have found : snapshot[cutIdx]? = some snapshot[cutIdx] := getElem?_eq_getElem (by omega)
    obtain ⟨cleared, step⟩ := trimPreTurnContextUpdates_succ decoders snapshot first cutIdx
        snapshot[cutIdx] reference found above
    rw [step, take_succ_eq_append_getElem (by omega)]
    by_cases contextual : isContextualMessage decoders snapshot[cutIdx] = true
    · have notFirst : first ≠ cutIdx := by
        intro same
        subst same
        rw [found, Option.some.injEq] at firstFound
        have apart := isUserTurnBoundary_of_contextual decoders snapshot[first] contextual
        simp [firstFound, isBoundary] at apart
      rw [if_pos contextual, rdropWhile_concat_pos _ _ _ contextual]
      exact ih cleared (by omega) (by omega)
    · rw [if_neg contextual, rdropWhile_concat_neg _ _ _ contextual,
        take_succ_eq_append_getElem (by omega)]

theorem getElem?_of_positionsFrom (start pos : Nat) (items : List ResponseItem)
    (mem : pos ∈ positionsFrom (isUserTurnBoundary decoders) start items) :
    start ≤ pos ∧ ∃ boundary, items[pos - start]? = some boundary ∧
        isUserTurnBoundary decoders boundary = true := by
  induction items generalizing start with
  | nil => simp [positionsFrom] at mem
  | cons head tail ih =>
    by_cases isMarked : isUserTurnBoundary decoders head = true
    · simp only [positionsFrom, isMarked, if_true, mem_cons] at mem
      rcases mem with rfl | later
      · exact ⟨le_refl _, head, by simp, isMarked⟩
      · obtain ⟨above, boundary, found, isBoundary⟩ := ih (start + 1) later
        refine ⟨by omega, boundary, ?_, isBoundary⟩
        rw [show pos - start = (pos - (start + 1)) + 1 by omega]
        simpa using found
    · simp only [positionsFrom, isMarked] at mem
      obtain ⟨above, boundary, found, isBoundary⟩ := ih (start + 1) mem
      refine ⟨by omega, boundary, ?_, isBoundary⟩
      rw [show pos - start = (pos - (start + 1)) + 1 by omega]
      simpa using found

theorem take_trim_of_later_boundary {first cut count : Nat} {others : List Nat}
    (found : userMessagePositions decoders items = first :: others)
    (cutFound : (first :: others)[count]? = some cut) (later : 0 < count) :
    items.take (trimPreTurnContextUpdates decoders items first cut reference).1 =
      (beforeMark (isUserTurnBoundary decoders) count
        items).rdropWhile (isContextualMessage decoders) := by
  rw [userMessagePositions] at found
  have total := length_positions (isUserTurnBoundary decoders) items
  have firstCut : items.take first = beforeMark (isUserTurnBoundary decoders) 0 items :=
    take_positions _ 0 (by simp [found])
  have cutCut : items.take cut = beforeMark (isUserTurnBoundary decoders) count items :=
    take_positions _ count (by rw [found, cutFound])
  have inRange : count < (first :: others).length := (List.getElem?_eq_some_iff.mp cutFound).1
  obtain ⟨_, boundary, firstFound, isBoundary⟩ := getElem?_of_positionsFrom decoders 0 first items
      (by rw [← positions, found]; simp)
  obtain ⟨_, _, lastFound, _⟩ := getElem?_of_positionsFrom decoders 0 cut items
      (by rw [← positions, found]; exact mem_of_getElem? cutFound)
  have inside : cut < items.length := by simpa using (List.getElem?_eq_some_iff.mp lastFound).1
  have above : first < cut := by
    by_contra notAbove
    have shorter : items.take cut <+: items.take first := take_prefix_take_left (by omega)
    have fewer := shorter.sublist.countP_le (p := isUserTurnBoundary decoders)
    rw [cutCut, firstCut, countP_beforeMark, countP_beforeMark] at fewer
    rw [found] at total
    omega
  rw [take_trimPreTurnContextUpdates decoders items first
    reference (by simpa using firstFound) isBoundary above (by omega),
    cutCut]

/--
`drop_last_n_user_turns` cuts the history before one of its turn boundaries
and trims the contextual messages above the cut.
-/
theorem dropLastNUserTurns_items (history : ContextManager) (numTurns : UInt32) :
    (history.dropLastNUserTurns decoders numTurns).items = dropMarked (isUserTurnBoundary decoders)
        (isContextualMessage decoders) numTurns.toNat history.items := by
  by_cases zero : numTurns = 0
  · simp [ContextManager.dropLastNUserTurns, zero]
  have positive : 0 < numTurns.toNat := by
    rcases Nat.eq_zero_or_pos numTurns.toNat with none | positive
    · exact absurd (UInt32.toNat_inj.mp (by simpa using none)) zero
    · exact positive
  have total := length_positions (isUserTurnBoundary decoders) history.items
  rw [ContextManager.dropLastNUserTurns, if_neg zero]
  cases found : userMessagePositions decoders history.items with
  | nil =>
    rw [← userMessagePositions, found, length_nil] at total
    simp only [found, ContextManager.replace_items]
    exact (dropMarked_of_unmarked _ _ _ _ total.symm).symm
  | cons first others =>
    rw [← userMessagePositions, found] at total
    simp only [found, ContextManager.replace_items]
    by_cases all : (first :: others).length ≤ numTurns.toNat
    · rw [rollbackCut, if_pos all, trimPreTurnContextUpdates_first,
        take_positions _ 0 (by rw [← userMessagePositions, found]; rfl),
        dropMarked_of_le _ _ _ _ positive (by omega)]
    · have inRange : (first :: others).length - numTurns.toNat < (first :: others).length := by
        simp only [length_cons]
        omega
      rw [rollbackCut, if_neg all, dropMarked_of_lt _ _ _ _ positive (by omega), ← total,
        getD_eq_getElem _ _ inRange]
      exact take_trim_of_later_boundary decoders history.items history.referenceContextItem found
        (getElem?_eq_getElem inRange) (by omega)

/--
Two rollbacks in a row are one of their sum.  What a rollback keeps is a front
of the history that holds everything before the first boundary, has the last
boundaries cut off, and does not end in a contextual message after the first.
-/
theorem rollbacks_compose (decoders : FragmentDecoders) (history : ContextManager)
    (m n : UInt32) (fits : m.toNat + n.toNat < 2 ^ 32) :
    ((history.dropLastNUserTurns decoders m).dropLastNUserTurns decoders n).items =
      (history.dropLastNUserTurns decoders (m + n)).items ∧
    (history.dropLastNUserTurns decoders n).items <+: history.items ∧
    history.items.takeWhile (fun item => !isUserTurnBoundary decoders item) <+:
      (history.dropLastNUserTurns decoders n).items ∧
    (history.dropLastNUserTurns decoders n).items.countP (isUserTurnBoundary decoders) =
      history.items.countP (isUserTurnBoundary decoders) - n.toNat ∧
    (0 < n.toNat → 0 < history.items.countP (isUserTurnBoundary decoders) → ∀ front last,
      (history.dropLastNUserTurns decoders n).items = front ++ [last] →
      0 < front.countP (isUserTurnBoundary decoders) →
      isContextualMessage decoders last = false) := by
  have unmarked := isUserTurnBoundary_of_contextual decoders
  simp only [dropLastNUserTurns_items, ← beforeMark_zero]
  refine ⟨?_, dropMarked_isPrefix _ _ _ _, beforeMark_isPrefix_dropMarked _ _ unmarked _ _,
    countP_dropMarked _ _ unmarked _ _, fun positive some front last ends above =>
      trimmed_last_dropMarked _ _ _ _ positive some ends above⟩
  rw [dropMarked_dropMarked _ _ unmarked, UInt32.toNat_add, Nat.mod_eq_of_lt fits]

def threeTurns : ContextManager :=
  ⟨["a", "b", "c"].map fun text => .message none "user" [.inputText text] none, 0, none⟩

theorem rollbacks_compose_threeTurns : (1 : UInt32).toNat + (1 : UInt32).toNat < 2 ^ 32 ∧
    ((threeTurns.dropLastNUserTurns plainEnvironment.decoders 1).dropLastNUserTurns
      plainEnvironment.decoders 1).items =
      (threeTurns.dropLastNUserTurns plainEnvironment.decoders (1 + 1)).items :=
  ⟨by decide, (rollbacks_compose plainEnvironment.decoders threeTurns 1 1 (by decide)).1⟩

/-! ## Images -/

def isInputImageItem : FunctionCallOutputContentItem → Bool
  | .inputImage _ _ => true
  | _ => false

def isFunctionCallOutput : ResponseItem → Bool
  | .functionCallOutput _ _ => true
  | _ => false

/--
`ContextManager::replace_last_turn_images`, or nothing where no image is
replaced.
-/
def ContextManager.replaceLastTurnImages (decoders : FragmentDecoders) (history : ContextManager)
    (placeholder : String) : Option ContextManager :=
  let passed := fun item => !(isFunctionCallOutput item || isUserTurnBoundary decoders item)
  let front := history.items.rdropWhile passed
  match front.getLast? with
  | some (.functionCallOutput callId ⟨.contentItems content, success⟩) =>
    if content.any isInputImageItem then
      let replaced := content.map fun item =>
        if isInputImageItem item then .inputText placeholder else item
      some { history with
        items := front.dropLast ++ .functionCallOutput callId ⟨.contentItems replaced, success⟩ ::
            history.items.rtakeWhile passed
        historyVersion := min (history.historyVersion + 1) u64Max }
    else none
  | _ => none

end Codex.Context.ContextHistory
