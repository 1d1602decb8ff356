import Codex.Library.RolledBackBlocks
import Codex.Session.EagerReplay
import Codex.Session.ThreadHistory
import Codex.Session.TurnReplay

/-!
# Turns and history under rollback

A rollback marker takes back turns from the turn list, and turn boundaries from
the history: user messages, and messages by which agents instruct each other.
Where a turn holds no boundary or several, the two replays part.  They leave
the same user messages when they are in step at every turn, read from the end
of the rollout; and where all user messages differ only then.
-/

namespace Codex.Session.TurnListSync

open Library.MarkedCuts Library.RolledBackBlocks Protocol.JsonValue List
  Protocol.Models Context.ContextualFragments Context.TextTruncation
  Context.ContextHistory Reconstruction EagerReplay ThreadHistory TurnReplay ThreadHistoryBuilder

/-! ## Rollouts of complete turns -/

def inputTextOf : ContentItem → Option String
  | .inputText text => some text
  | _ => none

def userInputsOf (decoders : FragmentDecoders) : ResponseItem → Option (List String)
  | .message _ role content _ =>
    if role == "user" && !isContextualUserMessageContent decoders content then
      some (buildUserInputs (String.join (content.filterMap inputTextOf)))
    else none
  | _ => none

/--
A part of a turn: a user message as its event together with its item, in either
order, or anything else that is recorded in a turn.
-/
inductive TurnPart (decoders : FragmentDecoders) where
  | userMessage (message : String) (eventFirst : Bool) (boundary : isUserTurnBoundary decoders
        (.inputMessage "user" message) = true)
  | item (item : ResponseItem) (notUser : userInputsOf decoders item = none)
  | event (tag : String) (payload : Value)
  | context (context : TurnContextItem)

section Rollouts

variable {decoders : FragmentDecoders}

def TurnPart.items : TurnPart decoders → List RolloutItem
  | .userMessage message true _ =>
    [.eventMsg (.userMessage message), .responseItem (.inputMessage "user" message)]
  | .userMessage message false _ =>
    [.responseItem (.inputMessage "user" message), .eventMsg (.userMessage message)]
  | .item response _ => [.responseItem response]
  | .event tag payload => [.eventMsg (.other tag payload)]
  | .context recorded => [.turnContext recorded]

structure ExplicitTurn (decoders : FragmentDecoders) where
  turnId : String
  parts : List (TurnPart decoders)

namespace ExplicitTurn

variable (turn : ExplicitTurn decoders) {builder : ThreadHistoryBuilder}

def body : List RolloutItem := turn.parts.flatMap TurnPart.items

theorem isInside_body : ∀ item ∈ turn.body, isInside item = true := by
  intro item listed
  obtain ⟨part, -, isItem⟩ := mem_flatMap.mp listed
  cases part with
  | userMessage message eventFirst boundary =>
    cases eventFirst <;>
      · simp only [TurnPart.items, mem_cons, not_mem_nil, or_false] at isItem
        rcases isItem with rfl | rfl <;> rfl
  | _ =>
    cases mem_singleton.mp isItem
    rfl

theorem isTurnInterior_of_isInside {item : RolloutItem} (inside : isInside item = true) :
    isTurnInterior item = true ∧ checkpointOf item = none := by
  cases item with
  | eventMsg event => cases event <;> first | exact ⟨rfl, rfl⟩ | cases inside
  | responseItem | turnContext => exact ⟨rfl, rfl⟩
  | _ => cases inside

/-- The turn as the replay of the history has it. -/
def complete : CompleteTurn where
  turnId := turn.turnId
  body := turn.body
  interior item listed := (isTurnInterior_of_isInside (turn.isInside_body item listed)).1

def boundaries : List ResponseItem := (responseItems turn.body).filter (isUserTurnBoundary decoders)

end ExplicitTurn

/-- Turns, and rollback markers between and after them. -/
inductive RolloutEntry (decoders : FragmentDecoders) where
  | turn (turn : ExplicitTurn decoders)
  | rollback (numTurns : UInt32)

def RolloutEntry.items : RolloutEntry decoders → List RolloutItem
  | .turn explicit => explicit.complete.items
  | .rollback numTurns => [.eventMsg (.threadRolledBack numTurns)]

/-- An entry as a block of the log of turns. -/
def RolloutEntry.logged : RolloutEntry decoders → Entry (ExplicitTurn decoders)
  | .turn explicit => .block explicit
  | .rollback numTurns => .rollback numTurns.toNat

variable (entries : List (RolloutEntry decoders))

def rolloutItems : List RolloutItem := entries.flatMap RolloutEntry.items

def logOf : List (Entry (ExplicitTurn decoders)) := entries.map RolloutEntry.logged

/-! ## The turn list -/

theorem boundary_of_userInputsOf {item : ResponseItem} {inputs : List String}
    (isUser : userInputsOf decoders item = some inputs) :
    isUserTurnBoundary decoders item = true := by
  cases item with
  | message id role content phase =>
    rw [userInputsOf] at isUser
    split at isUser
    · rename_i user
      rw [isUserTurnBoundary, user, Bool.true_or]
    · cases isUser
  | _ => cases isUser

theorem filterMap_boundaries (items : List ResponseItem) :
    (items.filter (isUserTurnBoundary decoders)).filterMap (userInputsOf decoders) =
      items.filterMap (userInputsOf decoders) := by
  rw [filterMap_filter]
  refine filterMap_congr fun item _ => ?_
  split
  · rfl
  · rename_i noBoundary
    cases isUser : userInputsOf decoders item with
    | none => rfl
    | some inputs => exact absurd (boundary_of_userInputsOf isUser) noBoundary

theorem userInputsOf_inputMessage {message : String} (boundary : isUserTurnBoundary decoders
      (.inputMessage "user" message) = true) :
    userInputsOf decoders (.inputMessage "user" message) = some (buildUserInputs message) := by
  have plain : isContextualUserMessageContent decoders [.inputText message] = false := by
    simpa [ResponseItem.inputMessage, isUserTurnBoundary] using boundary
  simp [ResponseItem.inputMessage, userInputsOf, plain, inputTextOf, String.join]

open ExplicitTurn

theorem shownMessages_body (turn : ExplicitTurn decoders) : turn.body.flatMap shownMessage =
      reads boundaries (userInputsOf decoders) turn := by
  rw [reads, boundaries, filterMap_boundaries]
  unfold body responseItems
  induction turn.parts with
  | nil => rfl
  | cons part parts ih =>
    rw [flatMap_cons, flatMap_append, filterMap_append, filterMap_append, ih]
    congr 1
    cases part with
    | userMessage message eventFirst boundary =>
      have isUser := userInputsOf_inputMessage boundary
      cases eventFirst <;>
        simp [TurnPart.items, shownMessage, isUser]
    | item item notUser => simp [TurnPart.items, shownMessage, notUser]
    | event | context => rfl

/-- The turn list holds the turns that the log of turns leaves. -/
structure Lists (builder : ThreadHistoryBuilder)
    (turns : List (ExplicitTurn decoders)) : Prop where
  closed : builder.currentTurn = none
  messages : builder.turns.map Turn.userMessages =
    turns.map (reads ExplicitTurn.boundaries (userInputsOf decoders))

variable (env : ThreadEnvironment)
  {turns : List (ExplicitTurn decoders)} {all : List RolloutItem} {state : ReplayState}

theorem Lists.entry (lists : Lists builder turns) (entry : RolloutEntry decoders) :
    Lists (entry.items.foldl (handleRolloutItem env) builder)
      (step (fun turn => [turn]) turns entry.logged) := by
  cases entry with
  | turn explicit =>
    have started := isOpen_turnStarted env lists.closed explicit.turnId
    have filled := started.foldl env explicit.isInside_body
    obtain ⟨closed, messages⟩ := filled.turnComplete env
    have items : explicit.complete.items.foldl
        (handleRolloutItem env) builder = (explicit.body.foldl (handleRolloutItem env)
            (builder.handleRolloutItem env (.eventMsg (.turnStarted explicit.turnId)))
            ).handleRolloutItem env (.eventMsg (.turnComplete explicit.turnId)) := by
      rw [CompleteTurn.items, foldl_cons, foldl_append]
      rfl
    refine ⟨?_, ?_⟩
    · rw [RolloutEntry.items, items]
      exact closed
    · rw [RolloutEntry.items, items, messages, lists.messages, nil_append, shownMessages_body]
      simp only [RolloutEntry.logged, step, map_append, map_cons, map_nil]
  | rollback numTurns =>
    obtain ⟨closed, turnsLeft⟩ := rollback_turns env lists.closed numTurns
    have sameLength : builder.turns.length = turns.length := by
      have lengths := congrArg List.length lists.messages
      simpa using lengths
    refine ⟨closed, ?_⟩
    change (builder.handleRolloutItem env
      (.eventMsg (.threadRolledBack numTurns))).turns.map Turn.userMessages = _
    rw [turnsLeft, map_take, lists.messages, sameLength, ← map_take]
    rfl

theorem Lists.run (lists : Lists builder turns) (entries : List (RolloutEntry decoders)) :
    Lists ((rolloutItems entries).foldl (handleRolloutItem env) builder)
      ((logOf entries).foldl (step fun turn => [turn]) turns) := by
  induction entries generalizing builder turns with
  | nil => exact lists
  | cons entry entries ih =>
    rw [rolloutItems, flatMap_cons, foldl_append]
    exact ih (lists.entry env entry)

def turnListMessages (env : ThreadEnvironment)
    (entries : List (RolloutEntry decoders)) : List (List String) :=
  (buildTurnsFromRolloutItems env (rolloutItems entries)).flatMap Turn.userMessages

theorem turnListMessages_eq (entries : List (RolloutEntry decoders)) :
    turnListMessages env entries =
      leftByBlocks boundaries (userInputsOf decoders) (logOf entries).reverse 0 := by
  have start : Lists new ([] : List (ExplicitTurn decoders)) := ⟨rfl, rfl⟩
  have lists := start.run env entries
  have finished : buildTurnsFromRolloutItems env
      (rolloutItems entries) = ((rolloutItems entries).foldl (handleRolloutItem env)
        new).turns := by
    simp only [buildTurnsFromRolloutItems, finish, finishCurrentTurn, lists.closed]
  rw [turnListMessages, finished, flatMap_def, lists.messages,
    leftByBlocks, ← replay_eq_survivors, flatMap_def, replay]

/-! ## The history -/

variable (env : HistoryEnvironment) (policy : TruncationPolicy)

theorem filter_recorded (items : List ResponseItem) :
    (recorded env policy items).filter (isUserTurnBoundary env.decoders) =
      items.filter (isUserTurnBoundary env.decoders) := by
  induction items with
  | nil => rfl
  | cons item items ih =>
    have split : item :: items = [item] ++ items := rfl
    rw [split, recorded_append, filter_append, filter_append, ih]
    congr 1
    cases boundary : isUserTurnBoundary env.decoders item with
    | true =>
      have api := isApiMessage_of_boundary env.decoders boundary
      cases item with
      | message => simp [recorded, api, processItem, boundary]
      | _ => cases boundary
    | false => cases api : isApiMessage item <;> simp [recorded, api, boundary]

theorem filter_dropMarked {α : Type} {marked trimmed : α → Bool}
    (unmarked : ∀ item, trimmed item = true → marked item = false) (count : Nat) (items : List α) :
    (dropMarked marked trimmed count items).filter marked =
      (items.filter marked).take ((items.filter marked).length - count) := by
  obtain ⟨rest, whole⟩ := dropMarked_isPrefix marked trimmed count items
  have marks := countP_dropMarked marked trimmed unmarked count items
  rw [countP_eq_length_filter, countP_eq_length_filter] at marks
  rw [← marks]
  nth_rewrite 3 [← whole]
  rw [filter_append, take_left]

theorem filter_materialized (state : MaterializedHistory) (entry : RolloutEntry env.decoders) :
    (entry.items.foldl (materializeItem env policy) state).history.items.filter
        (isUserTurnBoundary env.decoders) =
      step boundaries (state.history.items.filter
          (isUserTurnBoundary env.decoders)) entry.logged := by
  cases entry with
  | turn explicit =>
    have replayed := foldl_materializeItem_turns env policy [explicit.complete] state
    rw [turnItems_cons, turnItems_nil, append_nil, CompleteTurn.responseItems_items] at replayed
    rw [RolloutEntry.items, replayed]
    simp only [ContextManager.recordItems, filter_append, filter_recorded]
    rfl
  | rollback numTurns =>
    change (state.history.dropLastNUserTurns env.decoders numTurns).items.filter _ = _
    rw [dropLastNUserTurns_items, filter_dropMarked (isUserTurnBoundary_of_contextual env.decoders)]
    rfl

theorem filter_materialized_run (state : MaterializedHistory)
    (entries : List (RolloutEntry env.decoders)) :
    ((rolloutItems entries).foldl (materializeItem env policy) state).history.items.filter
        (isUserTurnBoundary env.decoders) =
      (logOf entries).foldl (step boundaries) (state.history.items.filter
          (isUserTurnBoundary env.decoders)) := by
  induction entries generalizing state with
  | nil => rfl
  | cons entry entries ih =>
    rw [rolloutItems, flatMap_cons, foldl_append, logOf, map_cons, foldl_cons,
      ← filter_materialized env policy]
    exact ih _

/-- A replay state that holds no checkpoint and selects the whole rollout. -/
structure Unbased (all : List RolloutItem) (state : ReplayState) : Prop where
  base : state.baseReplacementHistory = none
  segment : state.segment.baseReplacementHistory = none
  suffix : state.rolloutSuffix = all

theorem unbased_iff : Unbased all state ↔ heldBase state = none ∧ state.rolloutSuffix = all := by
  rw [heldBase_eq, Option.or_eq_none_iff]
  exact ⟨fun unbased => ⟨⟨unbased.base, unbased.segment⟩, unbased.suffix⟩,
    fun ⟨⟨base, segment⟩, suffix⟩ => ⟨base, segment, suffix⟩⟩

theorem Unbased.scanItem {all newer : List RolloutItem} (unbased : Unbased all state)
    {item : RolloutItem} (plain : checkpointOf item = none) :
    Unbased all (scanItem decoders newer state item) := by
  by_cases unmarked : isRollbackMarker item = false
  · obtain ⟨unheld, suffix⟩ := unbased_iff.mp unbased
    obtain ⟨same, -, held⟩ := holds_of_no_checkpoint state decoders newer unmarked plain
    refine unbased_iff.mpr ⟨?_, same.trans suffix⟩
    rcases held with same | ⟨-, dropped⟩
    · exact same.trans unheld
    · exact dropped.trans unbased.base
  · unfold isRollbackMarker at unmarked
    split at unmarked
    · exact ⟨unbased.base, unbased.segment, unbased.suffix⟩
    · exact absurd rfl unmarked

theorem reverseReplay_of_no_checkpoint (plain : ∀ item ∈ all, checkpointOf item = none) :
    (reverseReplay decoders all).baseReplacementHistory = none ∧
      (reverseReplay decoders all).rolloutSuffix = all := by
  have scanned : ∀ (older newer : List RolloutItem) (state : ReplayState),
      Unbased all state → (∀ item ∈ older, checkpointOf item = none) →
        Unbased all (reverseScan decoders older newer state) := by
    intro older
    induction older with
    | nil => exact fun _ _ unbased _ => unbased
    | cons item older ih =>
      intro newer state unbased plainOlder
      have next : Unbased all (Reconstruction.scanItem decoders newer state item) :=
        unbased.scanItem (plainOlder item mem_cons_self)
      rw [reverseScan]
      split
      · exact next
      · exact ih _ _ next (forall_mem_cons.mp plainOlder).2
  have final := scanned all.reverse [] (ReplayState.initial all)
    ⟨rfl, rfl, rfl⟩ fun item listed => plain item (mem_reverse.mp listed)
  unfold reverseReplay
  dsimp only
  split
  · exact ⟨final.base, final.suffix⟩
  · rename_i active isActive
    have unheld : active.baseReplacementHistory = none := by
      simpa [ReplayState.segment, isActive] using final.segment
    exact ⟨finalizeActiveSegment_no_base final.base unheld, by simpa using final.suffix⟩

theorem checkpointOf_rolloutItems {entries : List (RolloutEntry decoders)} :
    ∀ item ∈ rolloutItems entries, checkpointOf item = none := by
  intro item listed
  obtain ⟨entry, -, isItem⟩ := mem_flatMap.mp listed
  cases entry with
  | turn explicit =>
    rcases mem_cons.mp isItem with rfl | later
    · rfl
    · rcases mem_append.mp later with inBody | last
      · exact (isTurnInterior_of_isInside (explicit.isInside_body item inBody)).2
      · cases mem_singleton.mp last
        rfl
  | rollback numTurns =>
    cases mem_singleton.mp isItem
    rfl

def historyMessages (env : HistoryEnvironment) (policy : TruncationPolicy)
    (entries : List (RolloutEntry env.decoders)) : List (List String) :=
  (reconstructHistoryFromRollout env policy
    (rolloutItems entries)).history.filterMap (userInputsOf env.decoders)

theorem historyMessages_eq (entries : List (RolloutEntry env.decoders)) :
    historyMessages env policy entries = leftByElements boundaries
        (userInputsOf env.decoders) (logOf entries).reverse 0 := by
  have replayed : (reverseReplay env.decoders
      (rolloutItems entries)).baseReplacementHistory = none ∧ (reverseReplay env.decoders
          (rolloutItems entries)).rolloutSuffix = rolloutItems entries :=
    reverseReplay_of_no_checkpoint (checkpointOf_rolloutItems)
  obtain ⟨base, suffix⟩ := replayed
  rw [historyMessages, reconstructHistoryFromRollout]
  dsimp only
  rw [base, suffix, ← filterMap_boundaries, materialize,
    filter_materialized_run, leftByElements, ← replay_eq_survivors, replay]
  rfl

end Rollouts

/-! ## Both replays -/

section Agreement

variable (env : HistoryEnvironment) (policy : TruncationPolicy)
  (threads : ThreadEnvironment) (entries : List (RolloutEntry env.decoders))

/--
A rollout that both replays read in step: reading its entries from the last
one, with the number of turns and of boundaries that are still to be taken
back, no turn has a user message that only one of them takes back.
-/
def ReadInStep : Prop :=
  InStep ExplicitTurn.boundaries (userInputsOf env.decoders) (logOf entries).reverse 0 0

/-- The user messages of all turns of a rollout, from the last turn on. -/
def allMessages : List (List String) :=
  readsOf ExplicitTurn.boundaries (userInputsOf env.decoders) (logOf entries).reverse

/--
The turn list and the history are left with the same user messages where they
read the rollout in step, and, where its user messages differ, only there.
-/
theorem turn_list_agrees_with_history (entries : List (RolloutEntry env.decoders)) :
    (ReadInStep env entries →
      turnListMessages threads entries = historyMessages env policy entries) ∧
      ((allMessages env entries).Nodup →
        turnListMessages threads entries = historyMessages env policy entries →
          ReadInStep env entries) := by
  rw [turnListMessages_eq, historyMessages_eq]
  exact ⟨survivors_agree, inStep_of_agree⟩

end Agreement

/-- A user message of a session without fragments. -/
def sentMessage (message : String) (boundary : isUserTurnBoundary plainEnvironment.decoders
      (.inputMessage "user" message) = true) : TurnPart plainEnvironment.decoders :=
  .userMessage message false boundary

/-- Two turns of one message each, of which the second is taken back. -/
def plainEntries : List (RolloutEntry plainEnvironment.decoders) :=
  [.turn ⟨"first", [sentMessage "one" (by decide +kernel)]⟩,
    .turn ⟨"second", [sentMessage "two" (by decide +kernel)]⟩, .rollback 1]

/-- The same messages sent in one turn, which is taken back. -/
def steeredEntries : List (RolloutEntry plainEnvironment.decoders) :=
  [.turn ⟨"first", [sentMessage "one" (by decide +kernel),
    sentMessage "two" (by decide +kernel)]⟩, .rollback 1]

/-- A thread environment that shows no other events. -/
def plainThreads : ThreadEnvironment := ⟨plainEnvironment.decoders, fun _ _ => false⟩

theorem plainRollout_agrees : ReadInStep plainEnvironment plainEntries ∧
      (allMessages plainEnvironment plainEntries).Nodup ∧
      turnListMessages plainThreads plainEntries =
        historyMessages plainEnvironment (.bytes 1000) plainEntries := by
  have single : ReadInStep plainEnvironment plainEntries := by
    refine inStep_of_single fun content listed => ?_
    have lengths : ∀ entry ∈ (logOf plainEntries).reverse, ∀ content, entry = .block content →
          content = ⟨"first", [sentMessage "one" (by decide +kernel)]⟩ ∨
            content = ⟨"second", [sentMessage "two" (by decide +kernel)]⟩ := by
      simp [logOf, plainEntries, RolloutEntry.logged]
    rcases lengths _ listed content rfl with rfl | rfl <;> decide +kernel
  refine ⟨single, by decide +kernel, ?_⟩
  exact (turn_list_agrees_with_history plainEnvironment (.bytes 1000)
    plainThreads plainEntries).1 single

/-- A turn with two user messages is taken back only in part. -/
theorem steered_turn_left_in_history : turnListMessages plainThreads steeredEntries = [] ∧
      historyMessages plainEnvironment (.bytes 1000) steeredEntries = [["one"]] := by
  decide +kernel

end Codex.Session.TurnListSync
