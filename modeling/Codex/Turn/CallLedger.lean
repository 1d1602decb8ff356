import Codex.Turn.Sampling

/-!
# What a sampling request records

Of the items in the history, those that call a tool and those that answer a
call form a ledger.  Each poll of `sampleLoop` adds to the ledger, to the
queue of calls and to the loop detector what its event alone decides, whatever
the state; so the loop adds what the polls that it handled decide, and draining
the queue adds one answer for each call.
-/

namespace Codex.Turn.CallLedger

open Protocol.Models Context.ContextHistory Sse.Messages Items LoopDetection List
  PlanMode ToolCalls Sampling

/-! ## Entries -/

/-- A recorded call or answer, with the id that pairs them. -/
inductive Entry where
  | call (id : String)
  | output (id : String)
deriving DecidableEq

def entryOf (item : ResponseItem) : Option Entry :=
  match callIdOf item with
  | some id => some (.call id)
  | none => (outputIdOf item).map .output

/-- The calls and answers of some items, in order. -/
def ledger (items : List ResponseItem) : List Entry := items.filterMap entryOf

@[simp]
theorem ledger_append (items more : List ResponseItem) :
    ledger (items ++ more) = ledger items ++ ledger more := by
  simp [ledger]

theorem ledger_cons (item : ResponseItem) (items : List ResponseItem) :
    ledger (item :: items) = (entryOf item).toList ++ ledger items := by
  unfold ledger
  cases found : entryOf item with
  | none => rw [filterMap_cons_none found]; rfl
  | some entry => rw [filterMap_cons_some found]; rfl

variable (env : TurnEnvironment)

theorem entryOf_processItem (item : ResponseItem) :
    entryOf (processItem env.context env.truncationPolicy item) = entryOf item := by
  cases item <;> rfl

theorem entryOf_of_not_isApiMessage {item : ResponseItem}
    (dropped : isApiMessage item = false) : entryOf item = none := by
  cases item with
  | message | compactionTrigger | other => rfl
  | _ => simp [isApiMessage] at dropped

@[simp]
theorem ledger_recorded (items : List ResponseItem) :
    ledger (recorded env.context env.truncationPolicy items) = ledger items := by
  induction items with
  | nil => rfl
  | cons item items ih =>
    unfold recorded at ih ⊢
    cases api : isApiMessage item with
    | false =>
      rw [filter_cons_of_neg (by simp [api]), ih, ledger_cons, entryOf_of_not_isApiMessage api]
      rfl
    | true =>
      rw [filter_cons_of_pos api, map_cons, ledger_cons, ih, entryOf_processItem, ledger_cons]

/-! ## Sessions -/

/-- What was added to the history's ledger and to the loop detector. -/
structure Records (session next : SessionState) (entries : List Entry)
    (calls : List (String × UInt64)) : Prop where
  history : ∃ items, next.history.items = session.history.items ++ items ∧ ledger items = entries
  detector : next.detector.toolCallHistory =
      calls.foldl pushBounded session.detector.toolCallHistory

namespace Records

theorem refl (session : SessionState) : Records session session [] [] := ⟨⟨[], by simp, rfl⟩, rfl⟩

variable {session next last : SessionState} {entries more : List Entry}

theorem trans {calls later : List (String × UInt64)}
    (first : Records session next entries calls) (second : Records next last more later) :
    Records session last (entries ++ more) (calls ++ later) := by
  obtain ⟨items, grown, listed⟩ := first.history
  obtain ⟨moreItems, moreGrown, moreListed⟩ := second.history
  refine ⟨⟨items ++ moreItems, ?_, ?_⟩, ?_⟩
  · rw [moreGrown, grown, append_assoc]
  · rw [ledger_append, listed, moreListed]
  · rw [second.detector, first.detector, foldl_append]

/-- Only the history and the calls in the detector matter. -/
theorem keep {entries : List Entry}
    {calls : List (String × UInt64)} (records : Records session next entries calls)
    (history : last.history = next.history)
    (detector : last.detector.toolCallHistory = next.detector.toolCallHistory) :
    Records session last entries calls :=
  ⟨history ▸ records.history, detector ▸ records.detector⟩

variable (env : TurnEnvironment)

theorem record (session : SessionState) (items : List ResponseItem) :
    Records session (session.record env items) (ledger items) [] :=
  ⟨⟨_, rfl, ledger_recorded env items⟩, rfl⟩

theorem messages (session : SessionState) (texts : List String) :
    Records session (session.record env
      (texts.map (ResponseItem.inputMessage "developer"))) [] [] := by
  have none : ledger (texts.map (ResponseItem.inputMessage "developer")) = [] := by
    rw [ledger, filterMap_map]
    exact filterMap_eq_nil_iff.mpr fun _ _ => rfl
  have recorded := record env session (texts.map (ResponseItem.inputMessage "developer"))
  rwa [none] at recorded

theorem nonToolItem (session : SessionState) (runContributors : Bool)
    (item : ResponseItem) (planMode : Bool) :
    Records session (handleNonToolResponseItem env session runContributors item
        planMode).1 [] [] := by
  unfold handleNonToolResponseItem
  simp only
  split
  · exact (refl session).keep rfl rfl
  · split
    · exact (refl session).keep rfl rfl
    · split
      · exact (messages env session [env.imageInstructions]).keep rfl rfl
      · exact (refl session).keep rfl rfl
    · exact (refl session).keep rfl rfl

theorem finalized (session : SessionState) (item : ResponseItem) (planMode : Bool) :
    Records session (finalizeNonToolResponseItem env session item planMode).1 [] [] :=
  nonToolItem env session true item planMode

end Records

/-! ## Finished items -/

/-- What the loop detector keeps of a call. -/
def detected (call : ToolCall) : String × UInt64 :=
  (displayName call.toolName, env.hashString call.payload.logPayload)

variable (reader : SearchReader)

def itemEntries (item : ResponseItem) : List Entry :=
  match buildToolCall reader item with
  | .ok _ => (entryOf item).toList
  | .error _ => (entryOf item).toList ++ [.output ""]

/-- The call that a finished item dispatches, if any. -/
def itemCalls (item : ResponseItem) : List ToolCall :=
  match buildToolCall reader item with
  | .ok call => call.toList
  | .error _ => []

theorem ledger_singleton (item : ResponseItem) : ledger [item] = (entryOf item).toList := by
  rw [ledger_cons]
  exact append_nil _

variable (env : TurnEnvironment) (session : SessionState)

open Records

theorem Records.item (item : ResponseItem) :
    Records session (session.record env [item]) (entryOf item).toList [] :=
  ledger_singleton item ▸ record env session [item]

theorem Records.otherItem (item : ResponseItem) (prev : Option TurnItem) :
    Records session (handleOtherItemDone env session item prev).1 (entryOf item).toList [] := by
  -- Events and the texts in the detector are not part of what is tracked.
  have tracked := (finalized env session item env.planMode).trans (Records.item env _ item)
  unfold handleOtherItemDone
  simp only
  cases (finalizeNonToolResponseItem env session item env.planMode).2 with
  | none => exact tracked
  | some result =>
    simp only [Option.bind_some]
    split
    · exact tracked.keep rfl rfl
    · exact tracked.keep rfl rfl

theorem Records.toolCall (item : ResponseItem) (call : ToolCall) :
    Records session (handleToolCallDone env session item call).1
      (entryOf item).toList [detected env call] := by
  obtain ⟨history, _⟩ := Records.item env session item
  exact ⟨history, rfl⟩

theorem Records.outputItem {env : TurnEnvironment}
    {session next : SessionState} {item : ResponseItem}
    {prev : Option TurnItem} {result : OutputItemResult}
    (handled : handleOutputItemDone env session item prev = .ok (next, result)) :
    Records session next (itemEntries env.searchReader item)
        ((itemCalls env.searchReader item).map (detected env)) ∧
      result.toolFuture.toList = itemCalls env.searchReader item := by
  unfold handleOutputItemDone at handled
  unfold itemEntries itemCalls
  split at handled
  next call built =>
    obtain ⟨rfl, rfl⟩ := Prod.ext_iff.mp (Except.ok.inj handled)
    rw [built]
    exact ⟨toolCall env session item call, rfl⟩
  next built =>
    obtain ⟨rfl, rfl⟩ := Prod.ext_iff.mp (Except.ok.inj handled)
    rw [built]
    refine ⟨otherItem env session item prev, ?_⟩
    unfold handleOtherItemDone
    simp only
    split <;> rfl
  next message built =>
    obtain ⟨rfl, rfl⟩ := Prod.ext_iff.mp (Except.ok.inj handled)
    rw [built]
    exact ⟨(Records.item env session item).trans
      (Records.item env _ (.functionCallOutput "" ⟨.text message, none⟩)), rfl⟩
  next => cases handled

/-! ## The loop -/

/-- What a state of the loop adds to another, with the queued calls. -/
structure Adds (env : TurnEnvironment)
    (state next : SamplingState) (entries : List Entry)
    (calls : List ToolCall) : Prop where
  records : Records state.session next.session entries (calls.map (detected env))
  inFlight : next.inFlight = state.inFlight ++ calls

namespace Adds

variable {env : TurnEnvironment} (state : SamplingState) {next : SamplingState}

theorem trans {state last : SamplingState} {calls later : List ToolCall}
    (first : Adds env state next entries calls)
    (second : Adds env next last more later) :
    Adds env state last (entries ++ more) (calls ++ later) := by
  refine ⟨?_, ?_⟩
  · rw [map_append]
    exact first.records.trans second.records
  · rw [second.inFlight, first.inFlight, append_assoc]

/-- Only the session and the queue matter. -/
theorem keep {state last : SamplingState} {entries : List Entry} {calls : List ToolCall}
    (adds : Adds env state next entries calls) (session : last.session = next.session)
    (inFlight : last.inFlight = next.inFlight) : Adds env state last entries calls :=
  ⟨session ▸ adds.records, inFlight ▸ adds.inFlight⟩

/-- A session without new entries, and the same queue. -/
theorem quiet {state : SamplingState} (records : Records state.session next.session [] [])
    (inFlight : next.inFlight = state.inFlight) : Adds env state next [] [] :=
  ⟨records, by simp [inFlight]⟩

theorem streams {state : SamplingState}
    (streamed : state.Streams next) : Adds env state next [] [] := by
  obtain ⟨events, parsers, plan, rfl⟩ := streamed
  exact quiet ((refl state.session).keep rfl rfl) rfl

theorem takeActive : Adds env state state.takeActive.1 [] [] := by
  have cleared : Adds env state
      { state with activeItem := none, activeItemIsStreaming := false }
      [] [] :=
    quiet (refl _) rfl
  unfold SamplingState.takeActive
  simp only
  split
  · split
    · exact cleared.trans (streams (.flushItem _ _))
    · exact cleared
  · exact cleared

theorem itemDone (mail : Bool) (state : SamplingState)
    (item : ResponseItem) (prev : Option TurnItem) :
    Adds env state (onItemDone env mail state item prev).state
      (itemEntries env.searchReader item)
      (itemCalls env.searchReader item) := by
  unfold onItemDone
  cases outcome : handleOutputItemDone env state.session item prev with
  | error error => exact absurd outcome (handleOutputItemDone_ne_error _ _ _ _ _)
  | ok handled =>
    obtain ⟨session, result⟩ := handled
    obtain ⟨records, queued⟩ := outputItem outcome
    simp only
    split <;> exact ⟨records, by simp [Flow.state, queued]⟩

theorem planModeDone (plan : PlanModeStreamState) {item : ResponseItem} (prev : Option TurnItem)
    (assistant : isAssistantMessage item = true) :
    Adds env state (state.assistantItemDoneInPlanMode env plan item prev)
      (itemEntries env.searchReader item)
      (itemCalls env.searchReader item) := by
  cases item with
  | message id role content phase =>
    have sent : Records state.session (state.session.send (plan.maybeCompletePlanItemFromMessage
          (.message id role content phase)).2) [] [] :=
      (refl _).keep rfl rfl
    have recorded := (sent.trans (finalized env _ (.message id role content phase) true)).trans
        (Records.item env _ (.message id role content phase))
    exact quiet (recorded.keep rfl rfl) rfl
  | _ => cases assistant

theorem outputItemDone (mail : Bool) (state : SamplingState) (item : ResponseItem) :
    Adds env state (onOutputItemDone env mail state item).state (itemEntries env.searchReader item)
      (itemCalls env.searchReader item) := by
  have taken : Adds env state state.takeActive.1 [] [] := takeActive state
  unfold onOutputItemDone
  simp only
  split
  · split
    next assistant => exact taken.trans (planModeDone _ _ _ assistant)
    · exact taken.trans (itemDone mail _ item _)
  · exact taken.trans (itemDone mail _ item _)

theorem streamAddedItem (item : ResponseItem) (turnItem : TurnItem) :
    Adds env state (Sampling.streamAddedItem env state item turnItem) [] [] := by
  have seeded : Adds env state (seedItem env state item turnItem).1 [] [] :=
    streams (.seedItem env state item turnItem)
  unfold Sampling.streamAddedItem
  simp only
  generalize seedItem env state item turnItem = seeding at seeded
  obtain ⟨next, turnItem, chunk⟩ := seeding
  simp only at seeded ⊢
  have shown : ∀ announced emitted : SamplingState,
      next.Streams announced → announced.Streams emitted →
      Adds env state { emitted with
          activeItem := some turnItem
          activeItemIsStreaming := true } [] [] := by
    intro announced emitted streamed streamedOn
    have later := (seeded.trans (streams streamed)).trans (streams streamedOn)
    exact later.keep rfl rfl
  split
  · next parsed _ =>
    refine shown _ _ ?_ (.emit _ turnItem.id parsed)
    -- The item is put aside in plan mode and announced otherwise.
    split
    · split
      · exact .parsed next next.parsers _
      · exact .sent next _
    · exact .sent next _
  · refine shown _ _ ?_ (.refl _)
    split
    · split
      · exact .parsed next next.parsers _
      · exact .sent next _
    · exact .sent next _

theorem outputItemAdded (item : ResponseItem) :
    Adds env state (onOutputItemAdded env state item) [] [] := by
  have parsed : Adds env state { state with
        session := (handleNonToolResponseItem env state.session
          false item env.planMode).1 } [] [] :=
    quiet (nonToolItem env state.session false item _) rfl
  unfold onOutputItemAdded
  simp only
  split
  · exact parsed
  · split
    · exact parsed.trans (streamAddedItem _ item _)
    · exact parsed.keep rfl rfl

theorem activeItem (missing : String) (handle : TurnItem → SamplingState)
    (streamed : ∀ active, state.Streams (handle active)) :
    Adds env state (onActiveItem state missing handle) [] [] := by
  unfold onActiveItem
  split
  · split
    · exact streams (streamed _)
    · exact streams (.refl state)
  · exact quiet ((refl state.session).keep rfl rfl) rfl

theorem outputTextDelta (delta : String) :
    Adds env state (onOutputTextDelta env state delta) [] [] := by
  refine activeItem state _ _ fun active => ?_
  simp only
  split
  · exact (SamplingState.Streams.pushText env state _ _).trans (.emit _ _ _)
  · exact .sent state _

end Adds

def pollEntries : Poll → List Entry
  | .event (.outputItemDone item) _ => itemEntries reader item
  | _ => []

def pollCalls : Poll → List ToolCall
  | .event (.outputItemDone item) _ => itemCalls reader item
  | _ => []

variable (env : TurnEnvironment)

theorem onPoll_adds (state : SamplingState) (poll : Poll) :
    Adds env state (onPoll env state poll).state (pollEntries env.searchReader poll)
      (pollCalls env.searchReader poll) := by
  have same : Adds env state state [] [] := Adds.streams (.refl state)
  cases poll with
  | event event mail =>
    cases event with
    | outputItemDone item => exact Adds.outputItemDone mail state item
    | outputItemAdded item => exact Adds.outputItemAdded state item
    | outputTextDelta delta => exact Adds.outputTextDelta state delta
    | completed stopReason responseId usage endTurn =>
      have flushed : Adds env state (state.flushAll env) [] [] := Adds.streams (.flushAll env state)
      exact flushed.keep rfl rfl
    | reasoningSummaryDelta | reasoningSummaryPartAdded
    | reasoningContentDelta => exact Adds.activeItem state _ _ fun _ => .sent state _
    | _ => exact same
  | failed | cancelled => exact same
  | hookContexts contexts => exact Adds.quiet (messages env state.session contexts) rfl

/-- The polls that the loop reads before it ends. -/
def handledPolls : List Poll → SamplingState → List Poll
  | [], _ => []
  | poll :: polls, state =>
    match onPoll env state poll with
    | .next state => poll :: handledPolls polls state
    | .stop _ _ => [poll]

theorem sampleLoop_adds (polls : List Poll) (state : SamplingState) :
    Adds env state (sampleLoop env polls state).1
      ((handledPolls env polls state).flatMap (pollEntries env.searchReader))
      ((handledPolls env polls state).flatMap (pollCalls env.searchReader)) := by
  induction polls generalizing state with
  | nil => exact Adds.streams (.refl state)
  | cons poll polls ih =>
    have first := onPoll_adds env state poll
    unfold sampleLoop handledPolls
    cases outcome : onPoll env state poll with
    | next state =>
      rw [outcome] at first
      exact first.trans (ih state)
    | stop state result =>
      rw [outcome] at first
      simpa [Flow.state] using first

/-- The loop from its start, with all parsers flushed. -/
theorem sampled_adds (polls : List Poll) (session : SessionState) :
    let handled := handledPolls env polls (.initial env session)
    (sampled env polls session).1.inFlight = handled.flatMap (pollCalls env.searchReader) ∧
      Records session (sampled env polls session).1.session
        (handled.flatMap (pollEntries env.searchReader))
        ((sampled env polls session).1.inFlight.map (detected env)) := by
  intro handled
  have flushed := (sampleLoop_adds env polls (.initial env session)).trans
    (Adds.streams (.flushAll env _))
  rw [append_nil, append_nil] at flushed
  have queued : (sampled env polls session).1.inFlight =
      handled.flatMap (pollCalls env.searchReader) :=
    flushed.inFlight
  exact ⟨queued, queued ▸ flushed.records⟩

/-! ## Draining -/

def TaskResult.Answered : TaskResult → Prop
  | .failed (.fatal _) => False
  | _ => True

theorem handleToolCall_ok {result : TaskResult}
    (answered : TaskResult.Answered result) (call : ToolCall) :
    ∃ answer, handleToolCall call result = .ok answer := by
  cases result with
  | finished | aborted => exact ⟨_, rfl⟩
  | failed error =>
    cases error with
    | respondToModel message => exact ⟨_, rfl⟩
    | fatal message => exact answered.elim

theorem drainOne_records (session : SessionState) (call : ToolCall) {resolution : Resolution}
    (answered : TaskResult.Answered resolution.result) :
    Records session (drainOne env session call resolution) [.output call.callId] [] := by
  obtain ⟨answer, outcome⟩ := handleToolCall_ok answered call
  have hooks := messages env session resolution.contexts
  have recorded := hooks.trans (item env _ answer.toResponseItem)
  have noCall : callIdOf answer.toResponseItem = none := by cases answer <;> rfl
  rw [entryOf, noCall, outputIdOf_handleToolCall outcome] at recorded
  unfold drainOne
  simp only [outcome]
  exact recorded

theorem drainInFlight_records {resolve : Nat → Resolution}
    (answered : ∀ pos, TaskResult.Answered (resolve pos).result)
    (pos : Nat) (calls : List ToolCall) (session : SessionState) :
    Records session (drainInFlight env resolve pos calls session)
      (calls.map fun call => .output call.callId) [] := by
  induction calls generalizing pos session with
  | nil => exact refl session
  | cons call calls ih =>
    exact (drainOne_records env session call (answered pos)).trans (ih (pos + 1) _)

/-- The polls that a sampling request reads. -/
def handledBy (env : TurnEnvironment) (attempt : Attempt) (session : SessionState) : List Poll :=
  match attempt.refused with
  | some _ => []
  | none => handledPolls env attempt.polls (.initial env session)

theorem tryRunSamplingRequest_records (env : TurnEnvironment)
    {attempt : Attempt} (session : SessionState)
    (answered : ∀ pos, TaskResult.Answered (attempt.resolve pos).result) :
    let run := tryRunSamplingRequest env attempt session
    let handled := handledBy env attempt session
    run.calls = handled.flatMap (pollCalls env.searchReader) ∧
      Records session run.session (handled.flatMap (pollEntries env.searchReader) ++
          run.calls.map fun call => .output call.callId)
        (run.calls.map (detected env)) := by
  unfold tryRunSamplingRequest handledBy
  cases attempt.refused with
  | some error => exact ⟨rfl, refl session⟩
  | none =>
    obtain ⟨queued, records⟩ := sampled_adds env attempt.polls session
    have drained := records.trans (drainInFlight_records env answered 0
      (sampled env attempt.polls session).1.inFlight _)
    rw [append_nil] at drained
    exact ⟨queued, drained⟩

end Codex.Turn.CallLedger
