import Codex.Turn.ResponseStream
import Codex.Turn.RunTurn

/-!
# When a response without tool calls ends the turn

A response that completes without a tool call asks for another request only
through its `end_turn`.  The decoder of `/messages` never sets it to false.
The decoder of Gemini does for every finish reason that it does not translate
to `end_turn`, so that a text which is cut off by the token limit keeps the
turn running.  It also completes a response that it has just reported as
stalled, and the report makes the sampling request try again.
-/

namespace Codex.Turn.TurnEnd

open Protocol.Models List
open Sse.Messages (ResponseEvent Output)
open Sse.GenerateContent Tools.WireNames Items PlanMode ToolCalls Sampling
  ResponseStream RunTurn

variable {event : ResponseEvent} {item : ResponseItem}

/-! ## Events that ask for nothing -/

section Loop

variable (env : TurnEnvironment)

theorem needsFollowUp_of_streams {state next : SamplingState} (streams : state.Streams next) :
    next.needsFollowUp = state.needsFollowUp := by
  obtain ⟨events, parsers, plan, rfl⟩ := streams
  rfl

variable (state : SamplingState)

theorem takeActive_needsFollowUp : state.takeActive.1.needsFollowUp = state.needsFollowUp := by
  unfold SamplingState.takeActive
  simp only
  split
  next item _ =>
    have flushed := needsFollowUp_of_streams (.flushItem
      { state with activeItem := none, activeItemIsStreaming := false }
      item.id)
    split
    · exact flushed
    · rfl
  · rfl

theorem onItemDone_of_no_call (prev : Option TurnItem) (plain : callIdOf item = none) :
    ∃ next, onItemDone env false state item prev = .next next ∧
      next.needsFollowUp = state.needsFollowUp := by
  have asksNothing : (handleOtherItemDone env state.session item
      prev).2.needsFollowUp = false := by
    unfold handleOtherItemDone
    simp only
    split <;> rfl
  unfold onItemDone handleOutputItemDone
  simp only [buildToolCall_of_callIdOf _ plain, Bool.and_false, Bool.false_eq_true, if_false]
  exact ⟨_, rfl, by rw [asksNothing, Bool.or_false]⟩

theorem onOutputItemDone_of_no_call (plain : callIdOf item = none) :
    ∃ next, onOutputItemDone env false state item = .next next ∧
      next.needsFollowUp = state.needsFollowUp := by
  rw [← takeActive_needsFollowUp state]
  unfold onOutputItemDone
  simp only
  split
  · split
    · exact ⟨_, rfl, rfl⟩
    · exact onItemDone_of_no_call env _ _ plain
  · exact onItemDone_of_no_call env _ _ plain

theorem streamAddedItem_needsFollowUp (item : ResponseItem) (turnItem : TurnItem) :
    (streamAddedItem env state item turnItem).needsFollowUp = state.needsFollowUp := by
  have seeded := needsFollowUp_of_streams (.seedItem env state item turnItem)
  unfold streamAddedItem
  simp only
  generalize seedItem env state item turnItem = seeding at seeded
  obtain ⟨next, turnItem, chunk⟩ := seeding
  simp only at seeded ⊢
  rw [← seeded]
  split
  · rw [needsFollowUp_of_streams (.emit _ _ _)]
    split
    · split <;> rfl
    · rfl
  · split
    · split <;> rfl
    · rfl

theorem onOutputItemAdded_needsFollowUp (item : ResponseItem) :
    (onOutputItemAdded env state item).needsFollowUp = state.needsFollowUp := by
  unfold onOutputItemAdded
  simp only
  split
  · rfl
  · split
    · exact streamAddedItem_needsFollowUp env _ _ _
    · rfl

theorem onActiveItem_needsFollowUp (missing : String) {handle : TurnItem → SamplingState}
    (kept : ∀ active, (handle active).needsFollowUp = state.needsFollowUp) :
    (onActiveItem state missing handle).needsFollowUp = state.needsFollowUp := by
  unfold onActiveItem
  split
  · split
    · exact kept _
    · rfl
  · rfl

theorem onOutputTextDelta_needsFollowUp (delta : String) :
    (onOutputTextDelta env state delta).needsFollowUp = state.needsFollowUp := by
  refine onActiveItem_needsFollowUp state _ fun active => ?_
  split
  · exact needsFollowUp_of_streams ((SamplingState.Streams.pushText env state _ _).trans
        (.emit _ _ _))
  · rfl

/-- An event that neither completes a response nor calls a tool. -/
def Plain (event : ResponseEvent) : Prop := isCompletion event = false ∧
    ∀ item, event = .outputItemDone item → callIdOf item = none

theorem onResponseEvent_of_plain (plain : Plain event) :
    ∃ next, onResponseEvent env false state event = .next next ∧
      next.needsFollowUp = state.needsFollowUp := by
  cases event with
  | outputItemDone item => exact onOutputItemDone_of_no_call env state (plain.2 item rfl)
  | completed => cases plain.1
  | outputItemAdded item => exact ⟨_, rfl, onOutputItemAdded_needsFollowUp env state item⟩
  | outputTextDelta delta => exact ⟨_, rfl, onOutputTextDelta_needsFollowUp env state delta⟩
  | reasoningSummaryDelta | reasoningSummaryPartAdded | reasoningContentDelta =>
    exact ⟨_, rfl, onActiveItem_needsFollowUp state _ fun _ => rfl⟩
  | _ => exact ⟨state, rfl, rfl⟩

variable (mapping : ToolNameMapping) (events : List ResponseEvent)

theorem plain_mapResponseEvent (plain : Plain event) : Plain (mapResponseEvent mapping event) := by
  cases event with
  | outputItemDone item =>
    refine ⟨rfl, ?_⟩
    rintro _ ⟨⟩
    rw [callIdOf_restoreOriginalToolNamesInItem]
    exact plain.2 item rfl
  | outputItemAdded item => exact ⟨rfl, nofun⟩
  | _ => exact plain

/-- Plain events lead to a state that asks for no more than the one before. -/
theorem sampleLoop_of_plain (plain : ∀ event ∈ events, Plain event)
    (rest : List Poll) (state : SamplingState) :
    ∃ next, next.needsFollowUp = state.needsFollowUp ∧ sampleLoop env
          (events.map (fun event => pollOf mapping (.ok event)) ++ rest)
          state =
        sampleLoop env rest next := by
  induction events generalizing state with
  | nil => exact ⟨state, rfl, rfl⟩
  | cons event events ih =>
    obtain ⟨next, handled, kept⟩ := onResponseEvent_of_plain env
      state (plain_mapResponseEvent mapping (plain event mem_cons_self))
    obtain ⟨last, keptLater, later⟩ := ih (forall_mem_cons.mp plain).2
      next
    refine ⟨last, keptLater.trans kept, ?_⟩
    rw [← later, map_cons, cons_append, sampleLoop]
    simp only [pollOf, onPoll, handled]

theorem sampled_of_plain (plain : ∀ event ∈ events, Plain event)
    (rest : List Output) (session : SessionState) :
    ∃ next, next.needsFollowUp = false ∧ (sampled env
        ((events.map Except.ok ++ rest).map (pollOf mapping)) session).2 =
      (sampleLoop env (rest.map (pollOf mapping)) next).2 := by
  obtain ⟨next, kept, reached⟩ := sampleLoop_of_plain env mapping
    events plain (rest.map (pollOf mapping)) (.initial env session)
  refine ⟨next, kept, ?_⟩
  rw [← reached, map_append, map_map]
  rfl

/-- A response without calls asks for what its `end_turn` asks for. -/
theorem sampled_of_completed (plain : ∀ event ∈ events, Plain event)
    (reason : Option String) (id : String)
    (usage : Option Codex.Sse.Usage.TokenUsage) (endTurn : Option Bool) (session : SessionState) :
    ∃ message, (sampled env ((events.map Except.ok ++
          [Except.ok (ResponseEvent.completed reason id usage
            endTurn)]).map (pollOf mapping)) session).2 =
      .ok ⟨endTurn == some false, message, false⟩ := by
  obtain ⟨next, asksNothing, reached⟩ := sampled_of_plain env
    mapping events plain [.ok (.completed reason id usage endTurn)] session
  have flushed := needsFollowUp_of_streams (.flushAll env next)
  refine ⟨(next.flushAll env).lastAgentMessage, ?_⟩
  have asks : ((next.flushAll env).needsFollowUp ||
      endTurn == some false) = (endTurn == some false) := by
    rw [flushed, asksNothing, Bool.false_or]
  rw [reached, ← asks]
  rfl

end Loop

/-! ## Responses without calls -/

theorem plain_of_doneItems {outputs : List Output}
    {events : List ResponseEvent} {rest : List Output} (sent : outputs = events.map .ok ++ rest)
    (incomplete : ∀ event ∈ events, isCompletion event = false)
    (noCalls : ∀ item ∈ Codex.Sse.Messages.doneItems outputs, callIdOf item = none) :
    ∀ event ∈ events, Plain event := by
  intro event listed
  refine ⟨incomplete event listed, ?_⟩
  rintro item rfl
  refine noCalls item (mem_filterMap.mpr ⟨.ok (.outputItemDone item), ?_, rfl⟩)
  rw [sent]
  exact mem_append_left _ (mem_map_of_mem listed)

theorem plain_finalMessage {state : StreamState} : ∀ event ∈ finalMessage state, Plain event := by
  intro event listed
  unfold finalMessage at listed
  split at listed
  · cases listed
  · cases mem_singleton.mp listed
    refine ⟨rfl, ?_⟩
    rintro _ ⟨⟩
    rfl

/-- What becomes of a request that meets a response without calls. -/
inductive Settles (response : WireResponse) : Except CodexErr SamplingRequestResult → Prop where
  | completed (follows : Bool) (message : Option String) (running : ¬ response.Stalls)
      (asks : follows = true ↔ response.Asks) :
      Settles response (.ok ⟨follows, message, false⟩)
  | stalled (stalls : response.Stalls) :
      Settles response (.error (.stream "Gemini stream idle timeout"))

variable (env : TurnEnvironment) (mapping : ToolNameMapping) {completion : ResponseEvent}
  (session : SessionState)

theorem settles_messages {decoder : Codex.Sse.Messages.StreamEnvironment}
    {source : List Codex.Sse.Messages.SourceItem}
    (completes : isCompletion completion = true)
    (sent : .ok completion ∈ (WireResponse.messages decoder source).outputs)
    (noCalls : ∀ item ∈ (WireResponse.messages decoder source).doneItems, callIdOf item = none) :
    Settles (.messages decoder source) (sampled env
        ((WireResponse.messages decoder source).outputs.map (pollOf mapping)) session).2 := by
  obtain ⟨events, reason, id, usage, endTurn, outputs, incomplete, ends⟩ :=
    messages_of_completion completes sent
  have plain := plain_of_doneItems outputs incomplete noCalls
  obtain ⟨message, outcome⟩ := sampled_of_completed env mapping
    events plain reason id usage endTurn session
  have asksNothing : (endTurn == some false) = false := beq_eq_false_iff_ne.mpr ends
  rw [asksNothing] at outcome
  rw [show (WireResponse.messages decoder source).outputs = _ from outputs, outcome]
  exact .completed false message not_false (by simp [WireResponse.Asks])

theorem settles_generateContent {decoder : GeminiEnvironment} {source : List SourceItem}
    (completes : isCompletion completion = true)
    (sent : .ok completion ∈ (WireResponse.generateContent decoder source).outputs)
    (noCalls : ∀ item ∈ (WireResponse.generateContent decoder source).doneItems,
      callIdOf item = none) :
    Settles (.generateContent decoder source) (sampled env
        ((WireResponse.generateContent decoder source).outputs.map
          (pollOf mapping)) session).2 := by
  obtain ⟨events, last, finishes⟩ := finishes_of_completion completes sent
  have plain := plain_of_doneItems finishes.outputs finishes.incomplete noCalls
  have reason : last.finalStopReason = (lastFinish source).map
      (geminiFinishToStopReason decoder.toLowercase) :=
    finishes.reason.trans (Option.or_none)
  have captured : last.finalStopReason = none ↔ lastFinish source = none := by
    rw [reason, Option.map_eq_none_iff]
  rw [show (WireResponse.generateContent decoder source).outputs = _ from finishes.outputs]
  by_cases stalls : (WireResponse.generateContent decoder source).Stalls
  · obtain ⟨next, _, reached⟩ := sampled_of_plain env mapping
      events plain (stalled source last ++ (finalEvents decoder last).map .ok) session
    rw [reached, stalled, if_pos ⟨stalls.1, captured.mpr stalls.2⟩]
    exact .stalled stalls
  · have running : stalled source last = [] :=
      if_neg fun found => stalls ⟨found.1, captured.mp found.2⟩
    have plainToTheEnd : ∀ event ∈ events ++ finalMessage last, Plain event := by
      intro event listed
      rcases mem_append.mp listed with announced | final
      · exact plain event announced
      · exact plain_finalMessage event final
    have split : events.map Except.ok ++ ([] ++ (finalEvents decoder last).map Except.ok) =
          ((events ++ finalMessage last).map Except.ok ++
            [.ok (completedEvent decoder last)] : List Output) := by
      simp [finalEvents]
    obtain ⟨message, outcome⟩ := sampled_of_completed env mapping
      (events ++ finalMessage last) plainToTheEnd _ _ _ _ session
    rw [running, split, completedEvent, outcome]
    refine .completed _ message stalls ?_
    rw [reason]
    unfold WireResponse.Asks
    cases found : lastFinish source <;> simp [found]

variable {response : WireResponse}

theorem settles (resolve : Nat → Resolution) (session : SessionState)
    (completes : isCompletion completion = true) (sent : .ok completion ∈ response.outputs)
    (noCalls : ∀ item ∈ response.doneItems, callIdOf item = none) :
    Settles response (tryRunSamplingRequest env (response.attempt mapping resolve)
        session).outcome := by
  cases response with
  | messages decoder source => exact settles_messages env mapping session completes sent noCalls
  | generateContent decoder source =>
    exact settles_generateContent env mapping session completes sent noCalls

theorem not_asks_of_stalls (stalls : response.Stalls) : ¬ response.Asks := by
  cases response with
  | messages decoder source => exact not_false
  | generateContent decoder source =>
    rintro ⟨reason, found, _⟩
    rw [stalls.2] at found
    cases found

/-! ## Requests that are tried again -/

section Turn

variable (env : TurnEnvironment) (maxRetries : Nat)

/-- Whether an attempt with this outcome is followed by another one. -/
def triesAgain (retries : Nat) (fallback : Bool) : Except CodexErr SamplingRequestResult → Bool
  | .ok _ => false
  | .error error => error.isRetryable && (maxRetries ≤ retries && fallback || retries < maxRetries)

def nextRetries (retries : Nat) (fallback : Bool) : Nat :=
  if maxRetries ≤ retries && fallback then 0 else retries + 1

theorem runSamplingRequest_cons (trial : Trial) (trials : List Trial)
    (retries : Nat) (session : SessionState) :
    runSamplingRequest env maxRetries (trial :: trials) retries session =
      let run := tryRunSamplingRequest env trial.attempt session
      let rest := runSamplingRequest env maxRetries trials
        (nextRetries maxRetries retries trial.fallback) run.session
      if triesAgain maxRetries retries trial.fallback run.outcome then
        { rest with requests := run.calls :: rest.requests }
      else ⟨run.session, [run.calls], some run.outcome⟩ := by
  rw [runSamplingRequest]
  simp only
  generalize tryRunSamplingRequest env trial.attempt session = run
  obtain ⟨session, calls, outcome⟩ := run
  cases outcome with
  | ok result => rfl
  | error error =>
    simp only [triesAgain, nextRetries]
    by_cases retryable : error.isRetryable = true
    · by_cases switching : (maxRetries ≤ retries && trial.fallback) = true
      · simp [retryable, switching]
      · by_cases left : retries < maxRetries <;> simp [retryable, switching, left]
    · simp [retryable]

def retriesAfter : Nat → List Trial → Nat
  | retries, [] => retries
  | retries, trial :: trials => retriesAfter (nextRetries maxRetries retries trial.fallback) trials

/-- Attempts that were all to be retried lead to the next one. -/
theorem runSamplingRequest_append (before rest : List Trial)
    (retries : Nat) (session : SessionState)
    (failed : (runSamplingRequest env maxRetries before retries session).outcome = none) :
    let first := runSamplingRequest env maxRetries before retries
      session
    let later := runSamplingRequest env maxRetries rest
      (retriesAfter maxRetries retries before) first.session
    first.requests.length = before.length ∧
      runSamplingRequest env maxRetries (before ++ rest) retries session =
        { later with requests := first.requests ++ later.requests } := by
  induction before generalizing retries session with
  | nil => exact ⟨rfl, rfl⟩
  | cons trial before ih =>
    rw [cons_append, retriesAfter]
    rw [runSamplingRequest_cons] at failed
    simp only [runSamplingRequest_cons env maxRetries trial]
    simp only at failed
    split
    next again =>
      rw [if_pos again] at failed
      obtain ⟨counted, appended⟩ := ih _ _ failed
      exact ⟨congrArg (· + 1) counted, by rw [appended]; rfl⟩
    next done =>
      rw [if_neg done] at failed
      cases failed

theorem requests_of_trial (trial : Trial) (trials : List Trial)
    (retries : Nat) (session : SessionState) :
    0 < (runSamplingRequest env maxRetries (trial :: trials) retries session).requests.length := by
  rw [runSamplingRequest_cons]
  simp only
  split
  · exact Nat.succ_pos _
  · exact Nat.one_pos

section Attempts

variable {before : List Trial} {retries : Nat} {session : SessionState}
  (failed : (runSamplingRequest env maxRetries before retries session).outcome = none)
  (trial : Trial)

include failed

theorem requests_of_retried (again : triesAgain maxRetries (retriesAfter maxRetries retries before)
      trial.fallback (tryRunSamplingRequest env trial.attempt
        (runSamplingRequest env maxRetries before retries session).session).outcome = true)
    (next : Trial) :
    before.length + 1 < (runSamplingRequest env maxRetries
      (before ++ [trial, next]) retries session).requests.length := by
  obtain ⟨counted, appended⟩ := runSamplingRequest_append env
    maxRetries before [trial, next] retries session failed
  rw [appended, runSamplingRequest_cons]
  simp only [if_pos again, length_append, length_cons, counted]
  have later := requests_of_trial env maxRetries next []
    (nextRetries maxRetries (retriesAfter maxRetries retries before) trial.fallback)
    (tryRunSamplingRequest env trial.attempt
      (runSamplingRequest env maxRetries before retries session).session).session
  omega

theorem requests_of_settled (done : triesAgain maxRetries (retriesAfter maxRetries retries before)
      trial.fallback (tryRunSamplingRequest env trial.attempt
        (runSamplingRequest env maxRetries before retries session).session).outcome = false)
    (more : List Trial) :
    let request := runSamplingRequest env maxRetries (before ++ trial :: more) retries session
    request.requests.length = before.length + 1 ∧ request.outcome = some (tryRunSamplingRequest env
        trial.attempt (runSamplingRequest env maxRetries before
          retries session).session).outcome := by
  obtain ⟨counted, appended⟩ := runSamplingRequest_append env
    maxRetries before (trial :: more) retries session failed
  intro request
  rw [show request = _ from appended, runSamplingRequest_cons]
  simp only [if_neg (ne_true_of_eq_false done), length_append,
    length_cons, length_nil, counted, and_self]

end Attempts

/-! ## Rounds that ask for nothing more -/

/-- After its request, a round meets no input, compaction or stop hook. -/
structure AsksNothing (round : Round) : Prop where
  toolsBuilt : round.toolsError = none
  noInput : round.hasPendingInput = false
  noCompaction : round.tokenLimitReached = false
  noContinuation : round.stopOutcome.shouldBlock = true → round.stopOutcome.prompt = none

variable {round : Round}

theorem finishTurn_ended (quiet : AsksNothing round) (state : TurnState) (message : Option String) :
    ∃ ending, (finishTurn env round state message).2 = .ended ending := by
  have hooks : ∀ state : TurnState, ∃ ending, (stopHooks env round state).2 = .ended ending := by
    intro state
    unfold stopHooks
    split
    next blocking =>
      rw [quiet.noContinuation blocking]
      exact ⟨_, rfl⟩
    · exact ⟨_, rfl⟩
  unfold finishTurn
  simp only
  generalize (if message.isNone then state.session.consecutiveNullCompletions + 1 else 0) = count
  split
  · exact ⟨_, rfl⟩
  · exact hooks _

/-- After a quiet request the turn goes on only if the response asks. -/
theorem afterSampling_next (quiet : AsksNothing round)
    (state : TurnState) (follows : Bool) (message : Option String) :
    if follows then (afterSampling env round state ⟨follows, message, false⟩).2 = .goOn
    else ∃ ending, (afterSampling env round state ⟨follows, message, false⟩).2 = .ended ending := by
  unfold afterSampling
  simp only [quiet.noInput, quiet.noCompaction, Bool.or_false,
    Bool.false_and, Bool.false_eq_true, if_false]
  cases follows with
  | true => rfl
  | false => exact finishTurn_ended env quiet _ _

/-- What the input of a round leaves, and whether it ends the turn. -/
def admittedInput (round : Round) (state : TurnState) : SessionState × Bool :=
  runHooksAndRecordInputs env state.session
    (if state.canDrainPendingInput then round.pending else [])

theorem runRound_of_admitted (quiet : AsksNothing round) {state : TurnState}
    (admitted : (admittedInput env round state).2 = false) :
    let request := runSamplingRequest env maxRetries round.trials 0
      (admittedInput env round state).1
    (runRound env maxRetries round state).requests = request.requests ∧
      (∀ result, request.outcome = some (.ok result) →
        (runRound env maxRetries round state).next = (afterSampling env round
            { state with session := request.session } result).2) ∧
      (∀ error, request.outcome = some (.error error) →
        (runRound env maxRetries round state).next = (afterFailure env
            { state with session := request.session } error).2) := by
  have sampled : runRound env maxRetries round state = sampleRound env maxRetries round { state with
          session := (admittedInput env round state).1 } :=
    if_neg (ne_true_of_eq_false admitted)
  intro request
  rw [sampled]
  unfold sampleRound
  simp only [quiet.toolsBuilt]
  refine ⟨?_, ?_, ?_⟩
  · split <;> rfl
  · intro result outcome
    simp only [show (runSamplingRequest env maxRetries round.trials 0
      (admittedInput env round state).1).outcome = _ from outcome]
    rfl
  · intro error outcome
    simp only [show (runSamplingRequest env maxRetries round.trials 0
      (admittedInput env round state).1).outcome = _ from outcome]
    rfl

theorem runTurn_of_ended {state : TurnState} {ending : TurnEnding}
    (ended : (runRound env maxRetries round state).next = .ended ending) (rounds : List Round) :
    (runTurn env maxRetries (round :: rounds) state).requests =
      (runRound env maxRetries round state).requests := by
  rw [runTurn]
  simp only [ended]

theorem runRound_le_runTurn (round : Round) (rounds : List Round) (state : TurnState) :
    (runRound env maxRetries round state).requests.length ≤
      (runTurn env maxRetries (round :: rounds) state).requests.length := by
  rw [runTurn]
  simp only
  split
  · simp
  · exact Nat.le_refl _
  · exact Nat.le_refl _

theorem requests_of_quiet (attempt : Attempt) (state : TurnState) :
    0 < (runTurn env maxRetries [.quiet attempt] state ).requests.length := by
  have admitted : (admittedInput env (.quiet attempt) state).2 = false := by
    unfold admittedInput
    split <;> rfl
  have quiet : AsksNothing (.quiet attempt) := ⟨rfl, rfl, rfl, nofun⟩
  refine Nat.lt_of_lt_of_le ?_ (runRound_le_runTurn _ _ _ _ _)
  rw [(runRound_of_admitted env maxRetries quiet admitted).1]
  exact requests_of_trial env maxRetries ⟨attempt, false⟩ [] 0 _

end Turn

/-! ## The end of the turn -/

/-- A round that meets a response after some attempts that were retried. -/
def meeting (round : Round) (before : List Trial) (attempt : Attempt)
    (fallback : Bool) (more : List Trial) : Round :=
  { round with trials := before ++ ⟨attempt, fallback⟩ :: more }

theorem asksNothing_meeting {round : Round} (quiet : AsksNothing round)
    (before : List Trial) (attempt : Attempt) (fallback : Bool) (more : List Trial) :
    AsksNothing (meeting round before attempt fallback more) :=
  ⟨quiet.toolsBuilt, quiet.noInput, quiet.noCompaction, quiet.noContinuation⟩

section Meeting

variable {env : TurnEnvironment} {maxRetries : Nat}
  {round : Round} (quiet : AsksNothing round) {state : TurnState}
  (admitted : (admittedInput env round state).2 = false)
  {before : List Trial}
  (failed : (runSamplingRequest env maxRetries before 0
    (admittedInput env round state).1).outcome = none)
  {attempt : Attempt} (fallback : Bool)

include quiet admitted failed

/-- After a response the turn goes on if and only if it is to follow up. -/
theorem meeting_completed {follows : Bool} {message : Option String}
    (outcome : (tryRunSamplingRequest env attempt (runSamplingRequest env maxRetries before 0
        (admittedInput env round state).1).session).outcome =
      .ok ⟨follows, message, false⟩) :
    (∀ more rounds, (runTurn env maxRetries (meeting round before attempt fallback more :: rounds)
        state).requests.length = before.length + 1) ↔ follows = false := by
  have run : ∀ more, (runRound env maxRetries (meeting round before attempt fallback more) state
          ).requests.length = before.length + 1 ∧
        ∃ after, (runRound env maxRetries (meeting round before attempt fallback more) state).next =
          (afterSampling env (meeting round before attempt fallback more) after
            ⟨follows, message, false⟩).2 := by
    intro more
    obtain ⟨requests, sampled, _⟩ := runRound_of_admitted env
      maxRetries (asksNothing_meeting quiet before attempt fallback more) admitted
    obtain ⟨counted, reached⟩ := requests_of_settled env maxRetries
      failed ⟨attempt, fallback⟩ (by rw [outcome]; rfl) more
    exact ⟨(congrArg List.length requests).trans counted, _,
      sampled _ (reached.trans (congrArg some outcome))⟩
  constructor
  · intro single
    by_contra asks
    obtain ⟨counted, after, next⟩ := run []
    have goesOn := afterSampling_next env
      (asksNothing_meeting quiet before attempt fallback []) after follows message
    rw [if_pos (eq_true_of_ne_false asks)] at goesOn
    have more := requests_of_quiet env maxRetries attempt (runRound env maxRetries
        (meeting round before attempt fallback []) state).state
    have total := single [] [.quiet attempt]
    rw [runTurn] at total
    simp only [next.trans goesOn, length_append, counted] at total
    omega
  · rintro rfl more rounds
    obtain ⟨counted, after, next⟩ := run more
    obtain ⟨ending, ended⟩ := afterSampling_next env
      (asksNothing_meeting quiet before attempt fallback more) after false message
    rw [runTurn_of_ended env maxRetries (next.trans ended)]
    exact counted

/-- After a broken stream the turn goes on while a retry is left. -/
theorem meeting_broken {message : String} (outcome : (tryRunSamplingRequest env attempt
      (runSamplingRequest env maxRetries before 0
        (admittedInput env round state).1).session).outcome =
      .error (.stream message)) :
    (∀ more rounds, (runTurn env maxRetries (meeting round before attempt fallback more :: rounds)
        state).requests.length = before.length + 1) ↔
      maxRetries ≤ retriesAfter maxRetries 0 before ∧ fallback = false := by
  have spent : triesAgain maxRetries (retriesAfter maxRetries 0 before)
      fallback (.error (.stream message)) = false ↔ maxRetries ≤ retriesAfter maxRetries 0 before ∧
          fallback = false := by
    simp only [triesAgain, CodexErr.isRetryable, Bool.true_and]
    cases fallback <;> simp
  rw [← spent]
  constructor
  · intro single
    by_contra again
    have more := requests_of_retried env maxRetries failed
      ⟨attempt, fallback⟩ (by rw [outcome]; exact eq_true_of_ne_false again)
      ⟨attempt, fallback⟩
    have requests := (runRound_of_admitted env maxRetries
      (asksNothing_meeting quiet before attempt fallback [⟨attempt, fallback⟩])
      admitted).1
    have least := runRound_le_runTurn env maxRetries
      (meeting round before attempt fallback [⟨attempt, fallback⟩]) [] state
    rw [single, requests] at least
    exact absurd more (Nat.not_lt.mpr least)
  · intro done more rounds
    obtain ⟨requests, _, broken⟩ := runRound_of_admitted env
      maxRetries (asksNothing_meeting quiet before attempt fallback more) admitted
    obtain ⟨counted, reached⟩ := requests_of_settled env maxRetries
      failed ⟨attempt, fallback⟩ (by rw [outcome]; exact done) more
    rw [runTurn_of_ended env maxRetries (broken _ (reached.trans (congrArg some outcome)))]
    exact (congrArg List.length requests).trans counted

end Meeting

structure CompletesWithoutCalls (response : WireResponse) : Prop where
  completes : ∃ completion, isCompletion completion = true ∧ .ok completion ∈ response.outputs
  noCalls : ∀ item ∈ response.doneItems, callIdOf item = none

/--
A round makes no request after a response that completes without a tool call
if and only if the response has no finish reason that asks for another turn,
and, where it stalls without a finish reason, no retry is left.
-/
theorem no_request_after_plain_response_iff (env : TurnEnvironment) (maxRetries : Nat)
    (mapping : ToolNameMapping) (resolve : Nat → Resolution)
    {response : WireResponse} (plain : CompletesWithoutCalls response)
    (round : Round) (quiet : AsksNothing round) (state : TurnState)
    (admitted : (admittedInput env round state).2 = false)
    (before : List Trial) (fallback : Bool)
    (failed : (runSamplingRequest env maxRetries before 0
      (admittedInput env round state).1).outcome = none) :
    (∀ more rounds, (runTurn env maxRetries
        (meeting round before (response.attempt mapping resolve) fallback
          more :: rounds) state).requests.length = before.length + 1) ↔
      ¬ response.Asks ∧ (response.Stalls → maxRetries ≤ retriesAfter maxRetries 0 before ∧
            fallback = false) := by
  obtain ⟨completion, completes, sent⟩ := plain.completes
  have settled := settles env mapping resolve (runSamplingRequest env maxRetries before 0
      (admittedInput env round state).1).session completes sent
    plain.noCalls
  generalize outcome : (tryRunSamplingRequest env _ _).outcome = result at settled
  cases settled with
  | completed follows message running asks =>
    rw [meeting_completed quiet admitted failed fallback outcome, ← asks, Bool.not_eq_true]
    exact ⟨fun ends => ⟨ends, fun stalls => absurd stalls running⟩, And.left⟩
  | stalled stalls =>
    rw [meeting_broken quiet admitted failed fallback outcome]
    exact ⟨fun spent => ⟨not_asks_of_stalls stalls, fun _ => spent⟩, fun held => held.2 stalls⟩

variable (reason : FinishReason)

def textResponse : WireResponse := .generateContent plainGemini
    [.chunk ⟨[⟨some [⟨.text "Once upon a time", false, none⟩],
      some reason, none, none⟩], none, none⟩]

def textAttempt : Attempt := (textResponse reason).attempt [] fun _ => ⟨[], .aborted "0.0"⟩

theorem no_request_after_plain_response_stop : ¬ (textResponse .stop).Asks ∧ ∀ more rounds,
        (runTurn plainTurn 5 (meeting (.quiet (textAttempt .stop)) [] (textAttempt .stop) false
            more :: rounds)
          (.initial .new false)).requests.length = 1 := by
  have ends : ¬ (textResponse .stop).Asks := by
    rintro ⟨reason, found, other⟩
    cases found
    exact other rfl
  have running : ¬ (textResponse .stop).Stalls := nofun
  have plain : CompletesWithoutCalls (textResponse .stop) :=
    ⟨⟨_, rfl, mem_of_getLast? (by rfl)⟩, by decide +kernel⟩
  exact ⟨ends, (no_request_after_plain_response_iff plainTurn 5 []
    (fun _ => ⟨[], .aborted "0.0"⟩) plain (.quiet (textAttempt .stop))
    ⟨rfl, rfl, rfl, nofun⟩ (.initial .new false) rfl [] false rfl).mpr
      ⟨ends, fun stalls => absurd stalls running⟩⟩

/-- A text that is cut off by the token limit keeps the turn running. -/
theorem cut_off_text_keeps_turn_running : CompletesWithoutCalls (textResponse .maxTokens) ∧
      AsksNothing (.quiet (textAttempt .maxTokens)) ∧
      (runTurn plainTurn 5 [.quiet (textAttempt .maxTokens), .quiet (textAttempt .maxTokens)]
        (.initial .new false)).requests.length = 2 := by
  refine ⟨⟨⟨_, rfl, mem_of_getLast? (by rfl)⟩, by decide +kernel⟩, ⟨rfl, rfl, rfl, nofun⟩, by rfl⟩

/--
A request that keeps failing is sent at most once more than it may be retried, and so often again
for each fallback, of which there is none before the retries are used up.
-/
theorem requests_bounded (env : TurnEnvironment) (maxRetries : Nat) (trials : List Trial)
    (session : SessionState) :
    (runSamplingRequest env maxRetries trials 0 session).requests.length ≤
      ((trials.drop maxRetries).countP Trial.fallback + 1) * (maxRetries + 1) := by
  -- The retries so far count as requests.
  suffices bound : ∀ retries ≤ maxRetries,
      (runSamplingRequest env maxRetries trials retries session).requests.length + retries ≤
        ((trials.drop (maxRetries - retries)).countP Trial.fallback + 1) * (maxRetries + 1) from
    bound 0 (Nat.zero_le _)
  induction trials generalizing session with
  | nil =>
    intro retries few
    simp only [runSamplingRequest, length_nil, drop_nil, countP_nil]
    omega
  | cons trial rest ih =>
    intro retries few
    have later := ih (tryRunSamplingRequest env trial.attempt session).session
    simp only [runSamplingRequest_cons, Nat.add_mul] at later ⊢
    split
    next again =>
      simp only [length_cons, nextRetries]
      split
      next switches =>
        simp only [Bool.and_eq_true, decide_eq_true_eq] at switches
        obtain rfl := Nat.le_antisymm few switches.1
        have first := later 0 (Nat.zero_le _)
        have fewer := Nat.mul_le_mul_right (retries + 1)
          ((drop_sublist retries rest).countP_le (p := Trial.fallback))
        rw [Nat.sub_zero] at first
        simp only [Nat.sub_self, drop_zero, countP_cons, switches.2, if_true, Nat.add_mul]
        omega
      next stays =>
        have next : retries < maxRetries := by
          cases outcome : (tryRunSamplingRequest env trial.attempt session).outcome <;>
            simp_all [triesAgain]
        have first := later (retries + 1) next
        rw [show maxRetries - retries = maxRetries - (retries + 1) + 1 by omega, drop_succ_cons]
        omega
    next =>
      simp only [length_singleton]
      omega

end Codex.Turn.TurnEnd
