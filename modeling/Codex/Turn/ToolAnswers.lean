import Codex.Turn.CallLedger

/-!
# Every tool call is answered under its id

The calls of a response are recorded while it streams and answered when the
queue of calls is drained.  If the arguments of every call can be read, and no
item that is done later calls or answers under the id of an earlier call, then
each recorded call has exactly one answer after it, however the stream ends
and whatever becomes of the tool tasks, and the answers come in the order of
the calls.
-/

namespace Codex.Turn.ToolAnswers

open Protocol.JsonValue Protocol.Models Context.ContextHistory Sse.Messages List
  ToolCalls Sampling CallLedger

/-! ## Properties of recorded items -/

/-- Every call is followed by exactly one output under its id. -/
def AnsweredOnce (items : List ResponseItem) : Prop :=
  ∀ before call after id, items = before ++ call :: after → callIdOf call = some id →
      (after.filterMap outputIdOf).count id = 1

/-- The outputs end with those of the dispatched calls, in their order. -/
def AnsweredInOrder (calls : List ToolCall) (items : List ResponseItem) : Prop :=
  ∃ earlier, items.filterMap outputIdOf = earlier ++ calls.map ToolCall.callId

def doneItems (polls : List Poll) : List ResponseItem := polls.filterMap fun
    | .event (.outputItemDone item) _ => some item
    | _ => none

/-- `build_tool_call` accepts the item. -/
def Readable (reader : SearchReader) (item : ResponseItem) : Prop :=
  ∃ call, buildToolCall reader item = .ok call

/-- The later item neither calls nor answers under the earlier one's id. -/
def Separate (earlier later : ResponseItem) : Prop := ∀ id, callIdOf earlier = some id →
    callIdOf later ≠ some id ∧ outputIdOf later ≠ some id

/-! ## The ledger of a response -/

def outputs (entries : List Entry) : List String := entries.filterMap fun
    | .output id => some id
    | .call _ => none

variable (reader : SearchReader) {id : String} {before after : List Entry}
  (items : List ResponseItem)

theorem outputs_ledger : outputs (ledger items) = items.filterMap outputIdOf := by
  rw [outputs, ledger, filterMap_filterMap]
  congr 1
  funext item
  unfold entryOf
  cases called : callIdOf item with
  | some id => cases item <;> first | rfl | cases called
  | none => cases outputIdOf item <;> rfl

theorem flatMap_polls (polls : List Poll) :
    polls.flatMap (pollEntries reader) = (doneItems polls).flatMap (itemEntries reader) ∧
      polls.flatMap (pollCalls reader) = (doneItems polls).flatMap (itemCalls reader) := by
  induction polls with
  | nil => exact ⟨rfl, rfl⟩
  | cons poll polls ih =>
    unfold doneItems at ih ⊢
    rw [flatMap_cons, flatMap_cons, ih.1, ih.2]
    cases poll with
    | event event mail => cases event <;> exact ⟨rfl, rfl⟩
    | _ => exact ⟨rfl, rfl⟩

theorem flatMap_itemEntries (readable : ∀ item ∈ items, Readable reader item) :
    items.flatMap (itemEntries reader) = ledger items := by
  induction items with
  | nil => rfl
  | cons item items ih =>
    obtain ⟨call, built⟩ := readable item (by simp)
    rw [flatMap_cons, ledger_cons, itemEntries, built, ih (forall_mem_cons.mp readable).2]

theorem flatMap_itemCalls (readable : ∀ item ∈ items, Readable reader item) :
    (items.flatMap (itemCalls reader)).map ToolCall.callId = items.filterMap callIdOf := by
  induction items with
  | nil => rfl
  | cons item items ih =>
    obtain ⟨call, built⟩ := readable item (by simp)
    have rest := ih (forall_mem_cons.mp readable).2
    rw [flatMap_cons, map_append, rest, itemCalls, built]
    cases call with
    | none =>
      rw [filterMap_cons_none (callIdOf_of_no_call built)]
      rfl
    | some call =>
      rw [filterMap_cons_some (callIdOf_of_buildToolCall built)]
      rfl

/-! ## One answer for each call -/

theorem callIdOf_of_entryOf {item : ResponseItem} (entry : entryOf item = some (.call id)) :
    callIdOf item = some id := by
  unfold entryOf at entry
  cases called : callIdOf item with
  | some found =>
    rw [called] at entry
    cases entry
    rfl
  | none =>
    rw [called] at entry
    cases answered : outputIdOf item <;> rw [answered] at entry <;>
      cases entry

theorem exists_call_of_ledger {items : List ResponseItem}
    (split : ledger items = before ++ .call id :: after) :
    ∃ earlier item later, items = earlier ++ item :: later ∧
      callIdOf item = some id ∧ ledger later = after := by
  obtain ⟨front, back, rfl, -, called⟩ := filterMap_eq_append_iff.mp split
  obtain ⟨skipped, item, later, rfl, -, entry, rest⟩ := filterMap_eq_cons_iff.mp called
  exact ⟨front ++ skipped, item, later, by simp, callIdOf_of_entryOf entry, rest⟩

theorem call_before_answers {entries : List Entry} {ids : List String}
    (split : entries ++ ids.map .output = before ++ .call id :: after) :
    ∃ between, entries = before ++ .call id :: between ∧ after = between ++ ids.map .output := by
  have noCall : ∀ front back, ids.map Entry.output ≠ front ++ .call id :: back := by
    intro front back eq
    have mem : Entry.call id ∈ ids.map Entry.output := by simp [eq]
    simp at mem
  rcases append_eq_append_iff.mp split with
    ⟨front, -, answers⟩ | ⟨between, entriesEq, answers⟩
  · exact absurd answers (noCall front after)
  · cases between with
    | nil => exact absurd answers.symm (noCall [] after)
    | cons entry between =>
      obtain ⟨rfl, rest⟩ := List.cons.inj answers
      exact ⟨between, entriesEq, rest⟩

theorem outputs_map_output (ids : List String) : outputs (ids.map .output) = ids := by
  simp [outputs, filterMap_map]

/-- Separate items leave one answer for each call to the drained queue. -/
theorem count_outputs_after_call {items : List ResponseItem} (separate : items.Pairwise Separate)
    (split : ledger items ++ (items.filterMap callIdOf).map .output = before ++ .call id :: after) :
    (outputs after).count id = 1 := by
  obtain ⟨between, entries, rfl⟩ := call_before_answers split
  obtain ⟨earlier, item, later, rfl, called, rfl⟩ := exists_call_of_ledger entries
  obtain ⟨-, tail, across⟩ := pairwise_append.mp separate
  have notEarlier : id ∉ earlier.filterMap callIdOf := by
    intro mem
    obtain ⟨twin, twinMember, twinCalled⟩ := mem_filterMap.mp mem
    exact (across twin twinMember item (by simp) id twinCalled).1 called
  have apart := (pairwise_cons.mp tail).1
  have notLater : id ∉ later.filterMap callIdOf := by
    intro mem
    obtain ⟨twin, twinMember, twinCalled⟩ := mem_filterMap.mp mem
    exact (apart twin twinMember id called).1 twinCalled
  have notAnswered : id ∉ later.filterMap outputIdOf := by
    intro mem
    obtain ⟨twin, twinMember, answered⟩ := mem_filterMap.mp mem
    exact (apart twin twinMember id called).2 answered
  have ledgerOutputs : outputs (ledger later ++
      ((earlier ++ item :: later).filterMap callIdOf).map .output) = later.filterMap outputIdOf ++
          (earlier.filterMap callIdOf ++ id :: later.filterMap callIdOf) := by
    rw [outputs, filterMap_append]
    exact congrArg₂ _ (outputs_ledger later) ((outputs_map_output _).trans (by
        rw [filterMap_append, filterMap_cons_some called]))
  rw [ledgerOutputs, count_append, count_append, count_cons_self, count_eq_zero.mpr notAnswered,
    count_eq_zero.mpr notEarlier, count_eq_zero.mpr notLater]

theorem answeredOnce_of_ledger {items : List ResponseItem}
    (once : ∀ before after id, ledger items = before ++ .call id :: after →
      (outputs after).count id = 1) :
    AnsweredOnce items := by
  rintro before call after id rfl called
  rw [← outputs_ledger]
  refine once (ledger before) (ledger after) id ?_
  rw [ledger_append, ledger_cons, entryOf, called]
  rfl

/-! ## A sampling request -/

/--
Every call of a response is answered once, in order, if of the items that the
request handles all arguments can be read and the ids keep apart.
-/
theorem tool_calls_answered_once (env : TurnEnvironment)
    (attempt : Attempt) (session : SessionState)
    (answered : ∀ pos, TaskResult.Answered (attempt.resolve pos).result)
    (readable : ∀ item ∈ doneItems (handledBy env attempt session),
      Readable env.searchReader item)
    (separate : (doneItems (handledBy env attempt session)).Pairwise Separate) :
    let run := tryRunSamplingRequest env attempt session
    ∃ items, run.session.history.items = session.history.items ++ items ∧
      AnsweredOnce items ∧ AnsweredInOrder run.calls items := by
  intro run
  obtain ⟨dispatched, ⟨items, grown, entries⟩, -⟩ :=
    tryRunSamplingRequest_records env session answered
  let handled := handledBy env attempt session
  have ids : run.calls.map ToolCall.callId = (doneItems handled).filterMap callIdOf := by
    rw [dispatched, (flatMap_polls _ _).2]
    exact flatMap_itemCalls _ _ readable
  have listed : ledger items = ledger (doneItems handled) ++
      ((doneItems handled).filterMap callIdOf).map .output := by
    rw [entries, (flatMap_polls _ _).1, flatMap_itemEntries _ _ readable, ← ids, map_map]
    rfl
  refine ⟨items, grown, answeredOnce_of_ledger ?_, ?_⟩
  · intro before after id split
    exact count_outputs_after_call separate (listed.symm.trans split)
  · refine ⟨outputs (ledger (doneItems handled)), ?_⟩
    rw [← outputs_ledger, listed, ids, outputs, filterMap_append]
    exact congrArg _ (outputs_map_output _)

def finishedTask : Resolution := ⟨[], .finished (.content [.inputText "done"] (some true))⟩

/-- A search and a function call, of which the stream breaks off. -/
def brokenOff : Attempt where
  refused := none
  polls := [.event (.outputItemDone (.functionCall none "shell" none "ls" "call-1")) false,
      .hookContexts ["context of a hook"],
      .event (.outputItemDone (.toolSearchCall none (some "call-2") none
        "client" (.object [("query", .string "calendar")]))) false,
      .failed (.stream "connection reset")]
  resolve _ := finishedTask
  cancelled := false

theorem tool_calls_answered_once_broken_off : ∃ items,
      (tryRunSamplingRequest plainTurn brokenOff .new).session.history.items
          = SessionState.new.history.items ++ items ∧
        AnsweredOnce items ∧
        AnsweredInOrder (tryRunSamplingRequest plainTurn brokenOff .new).calls items := by
  have handled : doneItems (handledBy plainTurn brokenOff .new) = doneItems brokenOff.polls := by
    decide +kernel
  refine tool_calls_answered_once plainTurn brokenOff .new (fun _ => trivial) ?_ ?_ <;>
    rw [handled]
  · intro item mem
    rcases mem_pair.mp mem with rfl | rfl
    · exact ⟨_, rfl⟩
    · exact ⟨_, rfl⟩
  · refine pairwise_pair.mpr fun id called => ?_
    cases called
    exact ⟨by decide, nofun⟩

/-- A tool search whose arguments have no query. -/
def unreadableSearch : Attempt where
  refused := none
  polls := [.event (.outputItemDone (.toolSearchCall none (some "call-1") none
        "client" (.object []))) false,
      .event (.completed none "response-1" none none) false]
  resolve _ := finishedTask
  cancelled := false

/-- The search is answered, but not under its id. -/
theorem unreadable_search_answered_under_empty_id :
    (tryRunSamplingRequest plainTurn unreadableSearch .new).session.history.items =
      [.toolSearchCall none (some "call-1") none "client" (.object []), .functionCallOutput ""
          ⟨.text "failed to parse tool_search arguments: missing field `query`", none⟩] ∧
      ¬ AnsweredOnce (tryRunSamplingRequest plainTurn unreadableSearch
          .new).session.history.items := by
  have recorded : (tryRunSamplingRequest plainTurn unreadableSearch .new).session.history.items =
        [.toolSearchCall none (some "call-1") none "client" (.object []), .functionCallOutput ""
            ⟨.text "failed to parse tool_search arguments: missing field `query`", none⟩] := by
    decide +kernel
  refine ⟨recorded, fun once => ?_⟩
  rw [recorded] at once
  have answers := once [] _ _ "call-1" rfl rfl
  exact absurd answers (by decide)

end Codex.Turn.ToolAnswers
