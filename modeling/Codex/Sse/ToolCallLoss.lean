import Codex.Library.KeyedCounts
import Codex.Sse.Messages

/-!
# Tool calls that a stream starts and never finishes

A tool use block is announced at its start and becomes a function call item
when it stops.  This module counts, for every stream, the started blocks
against the emitted calls.  When the decoder reports a stop reason other than
`max_tokens`, every emitted call has complete arguments, and the calls match
the started blocks exactly when each block was stopped before its index was
taken by another block and before the stream ended.
-/

namespace Codex.Sse.ToolCallLoss

open Library.KeyedCounts Protocol.JsonValue Protocol.Models Messages Usage List Option
  WireTypes

/-! ## Started blocks and emitted calls -/

/-- The id of a tool use block that an item starts. -/
def startedId : SourceItem → Option String
  | .event (.contentBlockStart _ (.toolUse id _ _)) => some id
  | _ => none

def startedIds : List SourceItem → List String
  | [] => []
  | item :: rest =>
    if isFinal item then []
    else (startedId item).toList ++ startedIds rest

/-- The call id and the arguments of a function call. -/
def callOf : ResponseItem → Option (String × String)
  | .functionCall _ _ _ args callId => some (callId, args)
  | _ => none

variable (items : List ResponseItem)

def calls : List (String × String) := items.filterMap callOf

def callIds : List String := (calls items).map Prod.fst

@[simp]
theorem callIds_append (items more : List ResponseItem) :
    callIds (items ++ more) = callIds items ++ callIds more := by
  simp [callIds, calls]

/-! ## When a block is stopped -/

/-- Blocks that the decoder keeps track of. -/
def isTracked : ContentBlock → Bool
  | .serverToolUse _ name _ => name == "web_search"
  | .codeExecutionToolUse _ _ _ => false
  | .unknown _ _ => false
  | _ => true

/-- Whether an item starts a tracked block at an index. -/
def startsAt (index : UInt64) : SourceItem → Bool
  | .event (.contentBlockStart started block) => started == index && isTracked block
  | _ => false

/--
Whether a block at an index is stopped before its index is taken again and
before the loop ends.
-/
def isStopped (index : UInt64) : List SourceItem → Bool
  | [] => false
  | item :: rest =>
    if isFinal item then false
    else if item = .event (.contentBlockStop index) then true
    else if startsAt index item then false
    else isStopped index rest

def toolUseIndex : SourceItem → Option UInt64
  | .event (.contentBlockStart index (.toolUse _ _ _)) => some index
  | _ => none

/-- Every tool use block that the loop sees start is stopped in time. -/
def everyToolUseStopped : List SourceItem → Bool
  | [] => true
  | item :: rest =>
    if isFinal item then true
    else (toolUseIndex item).all (fun index => isStopped index rest) && everyToolUseStopped rest

/-! ## Tool uses in flight -/

def toolUseId : BlockState → Option String
  | .toolUse callId _ _ => some callId
  | _ => none

variable (blocks : BlockTracker)

/-- The id of the tool use block in flight at an index. -/
def toolUseAt (index : UInt64) : Option String := (blocks.lookup index).bind toolUseId

/-- The number of tool use blocks in flight with an id. -/
def openCount (id : String) : Nat := countValues (fun block => toolUseId block == some id) blocks

variable (blocks : BlockTracker)

theorem countP_lookup (index : UInt64) (id : String) :
    (blocks.lookup index).toList.countP (fun block => toolUseId block == some id) =
      (toolUseAt blocks index).toList.count id := by
  unfold toolUseAt
  cases blocks.lookup index with
  | none => rfl
  | some block =>
    cases found : toolUseId block <;>
      simp [found, count_singleton, countP_singleton]

theorem openCount_insert (index : UInt64) (block : BlockState) (id : String) :
    openCount (blocks.insert index block) id + (toolUseAt blocks index).toList.count id =
      openCount blocks id + (toolUseId block).toList.count id := by
  have counted : [block].countP (fun block => toolUseId block == some id) =
        (toolUseId block).toList.count id := by
    cases found : toolUseId block <;>
      simp [found, count_singleton, countP_singleton]
  rw [← countP_lookup, ← counted]
  exact countValues_insert _ blocks index block

theorem openCount_eq_zero_iff : (∀ id, openCount blocks id = 0) ↔
      ∀ index, toolUseAt blocks index = none := by
  simp only [openCount, countValues_eq_zero_iff, toolUseAt]
  constructor
  · intro none index
    cases found : blocks.lookup index with
    | none => rfl
    | some block =>
      cases tool : toolUseId block with
      | none => simp [tool]
      | some id =>
        have apart := none id index block found
        simp [tool] at apart
  · intro none id index block found
    have absent := none index
    simp only [found, bind_some] at absent
    simp [absent]

@[simp]
theorem toolUseAt_insert_self (index : UInt64) (block : BlockState) :
    toolUseAt (blocks.insert index block) index = toolUseId block := by
  simp [toolUseAt]

variable {index asked : UInt64}

theorem toolUseAt_insert_ne (block : BlockState) (apart : asked ≠ index) :
    toolUseAt (blocks.insert index block) asked = toolUseAt blocks asked := by
  rw [toolUseAt, AList.lookup_insert_ne apart, toolUseAt]

@[simp]
theorem toolUseAt_erase_self (index : UInt64) : toolUseAt (blocks.erase index) index = none := by
  simp [toolUseAt]

theorem toolUseAt_erase_ne (apart : asked ≠ index) :
    toolUseAt (blocks.erase index) asked = toolUseAt blocks asked := by
  rw [toolUseAt, AList.lookup_erase_ne apart, toolUseAt]

/-! ## Accounting for every started block -/

/-- Every tool use in flight or still to be started is stopped in time. -/
def Settled (blocks : BlockTracker) (source : List SourceItem) : Prop :=
  (∀ index, (toolUseAt blocks index).isSome = true → isStopped index source = true) ∧
    everyToolUseStopped source = true

/--
A stream never emits more calls with an id than it has tool uses with that id,
and it emits one for each of them exactly when all are stopped in time.
-/
structure Accounted (env : StreamEnvironment)
    (blocks : BlockTracker) (source : List SourceItem) : Prop where
  bounded : ∀ id, (callIds (doneRun env blocks source)).count id ≤
      openCount blocks id + (startedIds source).count id
  exact_iff : (∀ id, (callIds (doneRun env blocks source)).count id =
        openCount blocks id + (startedIds source).count id) ↔
      Settled blocks source

variable (env : StreamEnvironment) {source : List SourceItem}

theorem accounted_of_end {blocks : BlockTracker}
    (nothingDone : doneRun env blocks source = []) (nothingStarted : startedIds source = [])
    (notStopped : ∀ index, isStopped index source = false)
    (vacuous : everyToolUseStopped source = true) :
    Accounted env blocks source where
  bounded := by simp [nothingDone, callIds, calls]
  exact_iff := by
    simp only [nothingDone, nothingStarted, Settled, notStopped, vacuous,
      callIds, calls, filterMap_nil, map_nil, count_nil,
      Nat.add_zero, Bool.false_eq_true, imp_false, and_true]
    simp only [not_isSome_iff_eq_none]
    rw [← openCount_eq_zero_iff]
    exact forall_congr' fun id => eq_comm

variable {rest : List SourceItem}

/-- An item that neither starts, stops nor replaces a tool use. -/
theorem accounted_of_passing {blocks : BlockTracker} {item : SourceItem}
    (goesOn : isFinal item = false) (noneDone : doneBy env.toJsonCodec blocks item = [])
    (noneStarted : startedId item = none) (noIndex : toolUseIndex item = none)
    (keepsStopped : ∀ index, (toolUseAt blocks index).isSome = true →
        isStopped index (item :: rest) = isStopped index rest)
    (sameCount : ∀ id, openCount (blocksAfter env blocks item) id = openCount blocks id)
    (sameAt : ∀ index, toolUseAt (blocksAfter env blocks item) index = toolUseAt blocks index)
    (after : Accounted env (blocksAfter env blocks item) rest) :
    Accounted env blocks (item :: rest) := by
  have done : doneRun env blocks (item :: rest) = doneRun env (blocksAfter env blocks item)
        rest := by
    simp [doneRun, goesOn, noneDone]
  have started : startedIds (item :: rest) = startedIds rest := by
    simp [startedIds, goesOn, noneStarted]
  have settled : Settled blocks (item :: rest) ↔ Settled (blocksAfter env blocks item) rest := by
    have every : everyToolUseStopped (item :: rest) = everyToolUseStopped rest := by
      simp [everyToolUseStopped, goesOn, noIndex]
    simp only [Settled, every, sameAt]
    constructor
    · rintro ⟨inFlight, later⟩
      exact ⟨fun index found => keepsStopped index found ▸ inFlight index found, later⟩
    · rintro ⟨inFlight, later⟩
      exact ⟨fun index found => (keepsStopped index found).trans (inFlight index found), later⟩
  constructor
  · simpa [done, started, sameCount] using after.bounded
  · rw [settled, ← after.exact_iff]
    simp [done, started, sameCount]

variable (codec : JsonCodec)

theorem callIds_doneBy_stop (blocks : BlockTracker) (index : UInt64) :
    callIds (doneBy codec blocks (.event (.contentBlockStop index))) =
      (toolUseAt blocks index).toList := by
  simp only [doneBy, toolUseAt]
  cases blocks.lookup index with
  | none => rfl
  | some block =>
    cases block with
    | serverToolUse id name args =>
      by_cases search : name = "web_search" <;>
        simp [doneItem, search, toolUseId, callIds, calls, callOf]
    | thinking thinking signature =>
      by_cases empty : thinking = "" <;>
        simp [doneItem, empty, toolUseId, callIds, calls, callOf, thinkingItem]
    | _ =>
      simp [doneItem, toolUseId, callIds, calls, callOf,
        functionCallItem, textItem, redactedThinkingItem]

variable {index : UInt64}

theorem accounted_of_stop {blocks : BlockTracker}
    (after : Accounted env (blocks.erase index) rest) :
    Accounted env blocks (.event (.contentBlockStop index) :: rest) := by
  set item := SourceItem.event (.contentBlockStop index)
  have emits : ∀ id, (callIds (doneRun env blocks (item :: rest))).count id =
        (toolUseAt blocks index).toList.count id +
          (callIds (doneRun env (blocks.erase index) rest)).count id := by
    intro id
    have run : doneRun env blocks (item :: rest) = doneBy env.toJsonCodec blocks item ++
          doneRun env (blocks.erase index) rest := rfl
    rw [run, callIds_append, callIds_doneBy_stop, count_append]
  have started : startedIds (item :: rest) = startedIds rest := rfl
  have settled : Settled blocks (item :: rest) ↔ Settled (blocks.erase index) rest := by
    have every : everyToolUseStopped (item :: rest) = everyToolUseStopped rest := by
      simp [everyToolUseStopped, isFinal, toolUseIndex, item]
    have here : isStopped index (item :: rest) = true := by simp [isStopped, isFinal, item]
    have elsewhere : ∀ asked, asked ≠ index →
        isStopped asked (item :: rest) = isStopped asked rest := by
      intro asked apart
      simp [isStopped, isFinal, startsAt, item, apart.symm]
    simp only [Settled, every]
    constructor
    · rintro ⟨inFlight, later⟩
      refine ⟨fun asked found => ?_, later⟩
      by_cases same : asked = index
      · simp [same] at found
      · rw [← elsewhere asked same]
        rw [toolUseAt_erase_ne blocks same] at found
        exact inFlight asked found
    · rintro ⟨inFlight, later⟩
      refine ⟨fun asked found => ?_, later⟩
      by_cases same : asked = index
      · rw [same, here]
      · rw [elsewhere asked same]
        apply inFlight
        rwa [toolUseAt_erase_ne blocks same]
  have counts : ∀ id, openCount blocks id = openCount (blocks.erase index) id +
        (toolUseAt blocks index).toList.count id := by
    intro id
    rw [← countP_lookup]
    exact countValues_eq_erase_add _ blocks index
  constructor
  · intro id
    have bounded := after.bounded id
    rw [emits, counts, started]
    omega
  · rw [settled, ← after.exact_iff]
    apply forall_congr'
    intro id
    rw [emits, counts, started]
    omega

variable {block : ContentBlock} {state : BlockState}

theorem toolUseId_startedState (index : UInt64) (started : startedState env block = some state) :
    toolUseId state = startedId (.event (.contentBlockStart index block)) := by
  cases block with
  | serverToolUse id name input =>
    simp only [startedState] at started
    split at started
    · cases started
      rfl
    · simp at started
  | codeExecutionToolUse | unknown => simp [startedState] at started
  | _ =>
    cases started
    rfl

theorem isTracked_eq_isSome (block : ContentBlock) :
    isTracked block = (startedState env block).isSome := by
  cases block with
  | serverToolUse id name input =>
    by_cases search : name = "web_search" <;>
      simp [isTracked, startedState, search]
  | _ => rfl

theorem accounted_of_start {blocks : BlockTracker} (started : startedState env block = some state)
    (after : Accounted env (blocks.insert index state) rest) :
    Accounted env blocks (.event (.contentBlockStart index block) :: rest) := by
  set item := SourceItem.event (.contentBlockStart index block) with itemEq
  have carried : toolUseId state = startedId item := toolUseId_startedState env index started
  have tracked : isTracked block = true := by simp [isTracked_eq_isSome env, started]
  have done : doneRun env blocks (item :: rest) = doneRun env (blocks.insert index state) rest := by
    simp [doneRun, itemEq, isFinal, doneBy, blocksAfter, started]
  have starts : startedIds (item :: rest) = (startedId item).toList ++ startedIds rest := rfl
  have counts := openCount_insert blocks index state
  have here : isStopped index (item :: rest) = false := by
    simp [isStopped, isFinal, startsAt, itemEq, tracked]
  have elsewhere : ∀ asked, asked ≠ index →
      isStopped asked (item :: rest) = isStopped asked rest := by
    intro asked apart
    simp [isStopped, isFinal, startsAt, itemEq, apart.symm]
  have every : everyToolUseStopped (item :: rest) = true ↔
      ((startedId item).isSome = true → isStopped index rest = true) ∧
        everyToolUseStopped rest = true := by
    cases block <;>
      simp [everyToolUseStopped, itemEq, isFinal, toolUseIndex, startedId]
  constructor
  · intro id
    have bounded := after.bounded id
    have count := counts id
    rw [carried] at count
    rw [done, starts, count_append]
    omega
  cases lost : toolUseAt blocks index with
  | some old =>
    have settledNot : ¬Settled blocks (item :: rest) := by
      rintro ⟨inFlight, _⟩
      have stopped := inFlight index (by simp [lost])
      simp [here] at stopped
    refine iff_of_false ?_ settledNot
    intro equal
    have bounded := after.bounded old
    have count := counts old
    have same := equal old
    rw [carried, lost] at count
    rw [done, starts, count_append] at same
    simp only [toList_some, count_cons_self, count_nil] at count
    omega
  | none =>
    have settled : Settled blocks (item :: rest) ↔ Settled (blocks.insert index state) rest := by
      simp only [Settled, every]
      constructor
      · rintro ⟨inFlight, own, later⟩
        refine ⟨fun asked found => ?_, later⟩
        by_cases same : asked = index
        · subst same
          rw [toolUseAt_insert_self, carried] at found
          exact own found
        · rw [toolUseAt_insert_ne blocks state same] at found
          rw [← elsewhere asked same]
          exact inFlight asked found
      · rintro ⟨inFlight, later⟩
        refine ⟨fun asked found => ?_, fun found => ?_, later⟩
        · have apart : asked ≠ index := by
            rintro rfl
            simp [lost] at found
          rw [elsewhere asked apart]
          apply inFlight
          rwa [toolUseAt_insert_ne blocks state apart]
        · apply inFlight
          rwa [toolUseAt_insert_self, carried]
    rw [settled, ← after.exact_iff]
    apply forall_congr'
    intro id
    have count := counts id
    rw [carried, lost] at count
    simp only [toList_none, count_nil] at count
    rw [done, starts, count_append]
    omega

variable {delta : ContentBlockDelta}

theorem toolUseId_deltaState {before after : BlockState} {report : Option ResponseEvent}
    (applied : deltaState index before delta = some (after, report)) :
    toolUseId after = toolUseId before := by
  unfold deltaState at applied
  split at applied <;>
    simp only [Option.some.injEq, Prod.mk.injEq, reduceCtorEq]
      at applied
  all_goals
    obtain ⟨rfl, _⟩ := applied
    rfl

theorem accounted_of_delta {blocks : BlockTracker} (after : Accounted env
      (blocksAfter env blocks (.event (.contentBlockDelta index delta))) rest) :
    Accounted env blocks (.event (.contentBlockDelta index delta) :: rest) := by
  have same : (∀ id, openCount (blocksAfter env blocks
          (.event (.contentBlockDelta index delta))) id =
          openCount blocks id) ∧
      ∀ asked, toolUseAt (blocksAfter env blocks (.event (.contentBlockDelta index delta))) asked =
          toolUseAt blocks asked := by
    cases found : (blocks.lookup index).bind fun block => deltaState index block delta with
    | none => simp [blocksAfter, found]
    | some changed =>
      obtain ⟨block, report⟩ := changed
      obtain ⟨before, stored, applied⟩ := bind_eq_some_iff.mp found
      have kept : toolUseId block = toolUseAt blocks index := by
        rw [toolUseId_deltaState applied, toolUseAt, stored, bind_some]
      simp only [blocksAfter, found]
      constructor
      · intro id
        have count := openCount_insert blocks index block id
        rw [kept] at count
        omega
      · intro asked
        by_cases here : asked = index
        · rw [here, toolUseAt_insert_self, kept]
        · exact toolUseAt_insert_ne blocks block here
  refine accounted_of_passing env rfl rfl rfl rfl ?_ same.1 same.2 after
  intro asked _
  simp [isStopped, isFinal, startsAt]

theorem accounted (blocks : BlockTracker) (source : List SourceItem) :
    Accounted env blocks source := by
  induction source generalizing blocks with
  | nil => exact accounted_of_end env rfl rfl (fun _ => rfl) rfl
  | cons item rest ih =>
    by_cases final : isFinal item = true
    · apply accounted_of_end <;>
        simp [doneRun, startedIds, isStopped, everyToolUseStopped, final]
    have goesOn := eq_false_of_ne_true final
    cases item with
    | event event =>
      cases event with
      | contentBlockStart index block =>
        cases started : startedState env block with
        | some state => exact accounted_of_start env started (ih _)
        | none =>
          have untracked : isTracked block = false := by simp [isTracked_eq_isSome env, started]
          have notTool : ∀ id name input, block ≠ .toolUse id name input := by
            rintro id name input rfl
            simp [isTracked] at untracked
          have unchanged : blocksAfter env blocks
              (.event (.contentBlockStart index block)) = blocks := by
            simp [blocksAfter, started]
          refine accounted_of_passing env
            rfl rfl ?_ ?_ ?_ (by simp [unchanged])
            (by simp [unchanged]) (ih _)
          · cases block <;> simp_all [startedId]
          · cases block <;> simp_all [toolUseIndex]
          · intro asked _
            simp [isStopped, isFinal, startsAt, untracked]
      | contentBlockDelta index delta => exact accounted_of_delta env (ih _)
      | contentBlockStop index => exact accounted_of_stop env (ih _)
      | messageStop | error => simp [isFinal] at goesOn
      | _ =>
        refine accounted_of_passing env rfl
          rfl rfl rfl ?_ (fun _ => rfl) (fun _ => rfl)
          (ih _)
        intro asked _
        simp [isStopped, isFinal, startsAt]
    | skipped =>
      refine accounted_of_passing env rfl
        rfl rfl rfl ?_ (fun _ => rfl) (fun _ => rfl) (ih _)
      intro asked _
      simp [isStopped, isFinal, startsAt]
    | _ => simp [isFinal] at goesOn

/-! ## Truncated arguments change the stop reason -/

/-- The stop reason that an output reports, if it completes the stream. -/
def reportedReason : Output → Option (Option String)
  | .ok (.completed stopReason _ _ _) => some stopReason
  | _ => none

/-- Whether an item stops a block with truncated arguments. -/
def stopsTruncated (blocks : BlockTracker) : SourceItem → Bool
  | .event (.contentBlockStop index) => (blocks.lookup index).any (BlockState.isTruncated codec)
  | _ => false

/-- An item that the loop goes on after completes nothing and notes a truncated call. -/
theorem of_goesOn (state next : StreamState) (item : SourceItem)
    (goesOn : (onSourceItem env state item).next = some next) :
    (∀ output ∈ (onSourceItem env state item).sent, reportedReason output = none) ∧
      next.toolUseTruncated = (state.toolUseTruncated ||
        stopsTruncated env.toJsonCodec state.blocks item) := by
  cases item with
  | event event =>
    cases event with
    | messageStart msg =>
      cases goesOn
      cases model : msg.model <;>
        simp [onSourceItem, onEvent, onMessageStart, continueWith, model, reportedReason,
          stopsTruncated]
    | contentBlockStart index block =>
      cases started : startedState env block <;> cases added : addedItem block <;>
        simp only [onSourceItem, onEvent, onContentBlockStart, started, added, continueWith,
          Option.some.injEq] at goesOn ⊢ <;>
        subst goesOn <;>
        simp [stopsTruncated, reportedReason]
    | contentBlockDelta index delta =>
      cases found : (state.blocks.lookup index).bind fun block => deltaState index block delta with
      | none =>
        simp only [onSourceItem, onEvent, onContentBlockDelta, found, continueWith,
          Option.some.injEq] at goesOn ⊢
        subst goesOn
        simp [stopsTruncated]
      | some changed =>
        obtain ⟨block, report⟩ := changed
        obtain ⟨before, _, applied⟩ := bind_eq_some_iff.mp found
        have silent : ∀ event ∈ report.toList, reportedReason (.ok event) = none :=
          deltaState_report applied (fun _ => rfl) (fun _ _ => rfl) fun _ _ _ => rfl
        simp only [onSourceItem, onEvent, onContentBlockDelta, found, continueWith,
          Option.some.injEq] at goesOn ⊢
        subst goesOn
        exact ⟨by simpa using silent, by simp [stopsTruncated]⟩
    | contentBlockStop index =>
      cases found : state.blocks.lookup index <;>
        simp only [onSourceItem, onEvent, onContentBlockStop, found, continueWith,
          Option.some.injEq] at goesOn ⊢ <;>
        subst goesOn <;>
        simp [stopsTruncated, found, reportedReason]
    | messageStop | error => cases goesOn
    | _ =>
      cases goesOn
      simp [onSourceItem, onEvent, onMessageDelta, continueWith, stopsTruncated]
  | skipped =>
    cases goesOn
    simp [onSourceItem, continueWith, stopsTruncated]
  | _ => cases goesOn

theorem calls_doneBy_complete {codec : JsonCodec} {blocks : BlockTracker} {item : SourceItem}
    (complete : stopsTruncated codec blocks item = false) :
    ∀ call ∈ calls (doneBy codec blocks item), isTruncatedText codec call.2 = false := by
  cases item with
  | event event =>
    cases event with
    | contentBlockStop index =>
      cases found : blocks.lookup index with
      | none => simp [doneBy, found, calls]
      | some block =>
        simp only [stopsTruncated, found, any_some] at complete
        cases block with
        | toolUse callId name args =>
          have only : calls (doneBy codec blocks (.event (.contentBlockStop index))) =
                [(callId, args)] := by
            simp [doneBy, found, doneItem, functionCallItem, calls, callOf]
          rw [only]
          simpa [BlockState.isTruncated] using complete
        | serverToolUse id name args =>
          by_cases search : name = "web_search" <;>
            simp [doneBy, found, doneItem, search, calls, callOf]
        | thinking thinking signature =>
          by_cases empty : thinking = "" <;>
            simp [doneBy, found, doneItem, empty, calls, callOf, thinkingItem]
        | _ => simp [doneBy, found, doneItem, calls, callOf, textItem, redactedThinkingItem]
    | _ => simp [doneBy, calls]
  | _ => simp [doneBy, calls]

variable {reason : Option String} {output : Output}

/-- A reason other than `max_tokens` means that no truncation was seen. -/
theorem sawTruncation_of_reported {state : StreamState}
    (emitted : output ∈ (onMessageStop env state).sent)
    (reported : reportedReason output = some reason) (notTruncated : reason ≠ some "max_tokens") :
    state.sawTruncation env.toJsonCodec = false := by
  rw [mem_singleton.mp emitted] at reported
  simp only [reportedReason, Option.some.injEq] at reported
  by_contra truncated
  simp only [Bool.not_eq_false] at truncated
  rw [truncated, if_pos rfl] at reported
  exact notTruncated reported.symm

/--
When the stream completes with a reason other than `max_tokens`, the flag was
never up and every emitted call has complete arguments.
-/
theorem calls_complete (state : StreamState) (emitted : output ∈ processFrom env state source)
    (reported : reportedReason output = some reason) (notTruncated : reason ≠ some "max_tokens") :
    state.toolUseTruncated = false ∧ ∀ call ∈ calls (doneItems (processFrom env state source)),
        isTruncatedText env.toJsonCodec call.2 = false := by
  induction source generalizing state with
  | nil =>
    simp only [processFrom, mem_singleton] at emitted
    subst emitted
    simp [reportedReason] at reported
  | cons item rest ih =>
    have done := (onSourceItem_blocks env state item).1
    cases goesOn : (onSourceItem env state item).next with
    | some next =>
      simp only [processFrom, goesOn, mem_append] at emitted ⊢
      have inRest : output ∈ processFrom env next rest := by
        rcases emitted with here | later
        · have silent := (of_goesOn env state next item goesOn).1 output here
          simp [silent] at reported
        · exact later
      obtain ⟨flag, complete⟩ := ih next inRest
      rw [(of_goesOn env state next item goesOn).2, Bool.or_eq_false_iff] at flag
      refine ⟨flag.1, ?_⟩
      intro call mem
      rw [doneItems_append, calls, filterMap_append, mem_append] at mem
      rcases mem with here | later
      · rw [done] at here
        exact calls_doneBy_complete flag.2 call here
      · exact complete call later
    | none =>
      have final := (onSourceItem_next_eq_none_iff env state item).mp goesOn
      simp only [processFrom, goesOn] at emitted ⊢
      rw [done]
      cases item with
      | event event =>
        cases event with
        | messageStop =>
          have calm := sawTruncation_of_reported env emitted reported notTruncated
          simp only [StreamState.sawTruncation, Bool.or_eq_false_iff] at calm
          exact ⟨calm.1, by simp [doneBy, calls]⟩
        | error error =>
          rw [mem_singleton.mp emitted] at reported
          simp [reportedReason] at reported
        | _ => simp [isFinal] at final
      | skipped => simp [isFinal] at final
      | _ =>
        rw [mem_singleton.mp emitted] at reported
        simp [reportedReason] at reported

/-! ## No call is lost exactly when every block is stopped -/

theorem isTruncatedText_eq_false_iff (args : String) : isTruncatedText codec args = false ↔
      args = "" ∨ (codec.fromStr args).isSome = true := by
  cases read : codec.fromStr args <;>
    simp [isTruncatedText, read]

/--
When a stream completes with a reason other than `max_tokens`, its calls match
the started tool uses and have complete arguments exactly when every started
tool use was stopped in time.
-/
theorem toolUses_emitted_iff (env : StreamEnvironment) (source : List SourceItem)
    (reason : Option String) (responseId : String)
    (usage : Option TokenUsage) (endTurn : Option Bool)
    (emitted : .ok (.completed reason responseId usage endTurn) ∈ processMessagesSse env source)
    (notTruncated : reason ≠ some "max_tokens") :
    ((∀ id, (callIds (doneItems (processMessagesSse env source))).count id =
          (startedIds source).count id) ∧
      ∀ call ∈ calls (doneItems (processMessagesSse env source)),
        call.2 = "" ∨ (env.fromStr call.2).isSome = true) ↔
      everyToolUseStopped source = true := by
  have complete := (calls_complete env StreamState.initial emitted rfl notTruncated).2
  have counted := (accounted env ∅ source).exact_iff
  have items : doneItems (processMessagesSse env source) = doneRun env ∅ source :=
    doneItems_processFrom env StreamState.initial source
  have settled : Settled ∅ source ↔ everyToolUseStopped source = true := by
    simp [Settled, toolUseAt]
  rw [settled] at counted
  rw [← counted, items]
  constructor
  · rintro ⟨same, _⟩ id
    simpa [openCount] using same id
  · intro same
    refine ⟨fun id => by simpa [openCount] using same id, ?_⟩
    intro call mem
    rw [← isTruncatedText_eq_false_iff]
    apply complete
    rw [← processMessagesSse, items]
    exact mem

def stoppedSource : List SourceItem :=
  [.event (.contentBlockStart 0 (.toolUse "call" "run" .emptyObject)),
    .event (.contentBlockStop 0), .event .messageStop]

/-- The stopped tool use is emitted once. -/
theorem toolUses_emitted_stopped : (callIds (doneItems (processMessagesSse constantEnvironment
      stoppedSource))).count "call" = 1 :=
  ((toolUses_emitted_iff constantEnvironment stoppedSource none "" none
    none (by decide) (by decide)).mpr (by decide)).1 "call"

/--
A tool use that is still in flight at `message_stop` is lost, although the
stream completes with `end_turn`.
-/
theorem toolUse_in_flight_is_lost :
    let source : List SourceItem :=
      [.event (.contentBlockStart 0 (.toolUse "call" "run" .emptyObject)),
        .event (.messageDelta (some .endTurn) none),
        .event .messageStop]
    .ok (.completed (some "end_turn") "" none (some true)) ∈
        processMessagesSse constantEnvironment source ∧
      startedIds source = ["call"] ∧
      callIds (doneItems (processMessagesSse constantEnvironment source)) = [] := by
  decide

end Codex.Sse.ToolCallLoss
