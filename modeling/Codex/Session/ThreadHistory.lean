import Codex.Context.CompactedHistory

/-!
# Turns of a thread

`ThreadHistoryBuilder` of
`app-server-protocol/src/protocol/thread_history.rs`, which replays a rollout
into the turns that clients are shown.  An explicit turn lasts from its start
to its completion; an item outside of one opens a turn of its own.
-/

namespace Codex.Session.ThreadHistory

open Rust.Text Protocol.JsonValue Protocol.Models Context.ContextualFragments List

/-! ## Turns -/

/-- What the builder depends on outside the modelled code. -/
structure ThreadEnvironment where
  decoders : FragmentDecoders
  /-- Whether an event of another kind adds an item to the current turn. -/
  addsItem : String → Value → Bool

/-- `ThreadItem`, with the text inputs of a user message. -/
inductive ThreadItem where
  | userMessage (id : String) (content : List String)
  | hookPrompt (id : Option String) (fragments : List HookPromptFragment)
  | other (id tag : String) (payload : Value)

inductive TurnStatus where
  | completed
  | interrupted
  | failed
  | inProgress
deriving DecidableEq

structure Turn where
  id : String
  items : List ThreadItem
  status : TurnStatus

structure PendingTurn where
  id : String
  items : List ThreadItem
  status : TurnStatus
  openedExplicitly : Bool
  sawCompaction : Bool

def PendingTurn.toTurn (turn : PendingTurn) : Turn := ⟨turn.id, turn.items, turn.status⟩

structure ThreadHistoryBuilder where
  turns : List Turn
  currentTurn : Option PendingTurn
  nextItemIndex : Nat
  currentRolloutIndex : Nat
  nextRolloutIndex : Nat

namespace ThreadHistoryBuilder

def new : ThreadHistoryBuilder := ⟨[], none, 1, 0, 0⟩

variable (builder : ThreadHistoryBuilder)

def finishCurrentTurn : ThreadHistoryBuilder :=
  match builder.currentTurn with
  | some turn =>
    if turn.items.isEmpty && !turn.openedExplicitly &&
        !turn.sawCompaction then
      { builder with currentTurn := none }
    else
      { builder with
        turns := builder.turns ++ [turn.toTurn]
        currentTurn := none }
  | none => builder

/-- `new_turn`, while a rollout is replayed. -/
def newTurn (id : Option String) : PendingTurn where
  id := id.getD ("rollout-" ++ toString builder.currentRolloutIndex)
  items := []
  status := .completed
  openedExplicitly := false
  sawCompaction := false

def ensureTurn : PendingTurn := builder.currentTurn.getD (builder.newTurn none)

def pushItem (item : ThreadItem) : ThreadHistoryBuilder :=
  let turn := builder.ensureTurn
  { builder with
    currentTurn := some { turn with items := turn.items ++ [item] } }

/-- The id that `next_item_id` gives. -/
def itemId : String := "item-" ++ toString builder.nextItemIndex

/-- What `next_item_id` leaves. -/
def takeItemId : ThreadHistoryBuilder := { builder with nextItemIndex := builder.nextItemIndex + 1 }

end ThreadHistoryBuilder

/-- `build_user_inputs`, for a message without images. -/
def buildUserInputs (message : String) : List String :=
  if (trim message).isEmpty then [] else [message]

namespace ThreadHistoryBuilder

variable (builder : ThreadHistoryBuilder)

/-! ## Events -/

def handleUserMessage (message : String) : ThreadHistoryBuilder :=
  let builder :=
    match builder.currentTurn with
    | some turn =>
      if !turn.openedExplicitly &&
          !(turn.sawCompaction && turn.items.isEmpty) then
        builder.finishCurrentTurn
      else builder
    | none => builder
  builder.takeItemId.pushItem (.userMessage builder.itemId (buildUserInputs message))

def handleTurnStarted (turnId : String) : ThreadHistoryBuilder :=
  let builder := builder.finishCurrentTurn
  { builder with
    currentTurn := some { builder.newTurn (some turnId) with
        status := .inProgress
        openedExplicitly := true } }

def completedStatus (status : TurnStatus) : TurnStatus :=
  match status with
  | .completed | .inProgress => .completed
  | other => other

def handleTurnComplete (turnId : String) : ThreadHistoryBuilder :=
  let completeCurrent (turn : PendingTurn) : ThreadHistoryBuilder :=
    { builder with
      currentTurn := some { turn with
        status := completedStatus turn.status } }.finishCurrentTurn
  match builder.currentTurn.filter (·.id == turnId) with
  | some turn => completeCurrent turn
  | none =>
    match builder.turns.findIdx? (·.id == turnId) with
    | some index =>
      { builder with
        turns := builder.turns.modify index fun turn =>
          { turn with status := completedStatus turn.status } }
    | none =>
      match builder.currentTurn with
      | some turn => completeCurrent turn
      | none => builder

def handleTurnAborted (turnId : Option String) : ThreadHistoryBuilder :=
  let abortCurrent : ThreadHistoryBuilder :=
    { builder with
      currentTurn := builder.currentTurn.map fun turn => { turn with status := .interrupted } }
  match turnId with
  | some turnId =>
    match builder.currentTurn.filter (·.id == turnId) with
    | some _ => abortCurrent
    | none =>
      match builder.turns.findIdx? (·.id == turnId) with
      | some index =>
        { builder with
          turns := builder.turns.modify index fun turn => { turn with status := .interrupted } }
      | none => abortCurrent
  | none => abortCurrent

def handleCompacted : ThreadHistoryBuilder := { builder with
    currentTurn := some { builder.ensureTurn with sawCompaction := true } }

def handleThreadRollback (numTurns : UInt32) : ThreadHistoryBuilder :=
  let builder := builder.finishCurrentTurn
  let turns :=
    if builder.turns.length ≤ numTurns.toNat then []
    else builder.turns.take (builder.turns.length - numTurns.toNat)
  { builder with
    turns := turns
    nextItemIndex := (turns.map fun turn => turn.items.length).sum + 1 }

def parseHookPromptMessage (decoders : FragmentDecoders)
    (content : List ContentItem) : Option (List HookPromptFragment) :=
  match content.mapM fun
    | .inputText text => parseHookPromptFragment decoders text
    | _ => none with
  | some (fragment :: fragments) => some (fragment :: fragments)
  | _ => none

variable (env : ThreadEnvironment)

def handleResponseItem (builder : ThreadHistoryBuilder) : ResponseItem → ThreadHistoryBuilder
  | .message id role content _ =>
    if role == "user" then
      match parseHookPromptMessage env.decoders content with
      | some fragments => builder.pushItem (.hookPrompt id fragments)
      | none => builder
    else builder
  | _ => builder

def handleEvent (builder : ThreadHistoryBuilder) : EventMsg → ThreadHistoryBuilder
  | .userMessage message => builder.handleUserMessage message
  | .turnStarted turnId => builder.handleTurnStarted turnId
  | .turnComplete turnId => builder.handleTurnComplete turnId
  | .turnAborted turnId => builder.handleTurnAborted turnId
  | .threadRolledBack numTurns => builder.handleThreadRollback numTurns
  | .other tag payload =>
    if env.addsItem tag payload then builder.takeItemId.pushItem (.other builder.itemId tag payload)
    else builder

def handleRolloutItem (builder : ThreadHistoryBuilder)
    (item : RolloutItem) : ThreadHistoryBuilder :=
  let builder := { builder with
    currentRolloutIndex := builder.nextRolloutIndex
    nextRolloutIndex := builder.nextRolloutIndex + 1 }
  match item with
  | .eventMsg event => builder.handleEvent env event
  | .compacted _ => builder.handleCompacted
  | .responseItem item => builder.handleResponseItem env item
  | .turnContext _ | .sessionMeta _ => builder

def finish : List Turn := builder.finishCurrentTurn.turns

end ThreadHistoryBuilder

def buildTurnsFromRolloutItems (env : ThreadEnvironment)
    (items : List RolloutItem) : List Turn :=
  (items.foldl (ThreadHistoryBuilder.handleRolloutItem env) ThreadHistoryBuilder.new).finish

/-! ## User messages -/

def ThreadItem.userInputs : ThreadItem → Option (List String)
  | .userMessage _ content => some content
  | _ => none

def Turn.userMessages (turn : Turn) : List (List String) :=
  turn.items.filterMap ThreadItem.userInputs

def PendingTurn.userMessages (turn : PendingTurn) : List (List String) :=
  turn.items.filterMap ThreadItem.userInputs

/-! ## An explicit turn -/

/-- A builder that has an explicit turn open after some finished ones. -/
structure IsOpen (builder : ThreadHistoryBuilder) (turns : List Turn)
    (turnId : String) (messages : List (List String)) : Prop where
  turns_eq : builder.turns = turns
  current : ∃ turn, builder.currentTurn = some turn ∧ turn.id = turnId ∧
    turn.openedExplicitly = true ∧ turn.userMessages = messages

section Open

variable {builder : ThreadHistoryBuilder} {turns : List Turn}
  {turnId : String} {messages : List (List String)} (isOpen : IsOpen builder turns turnId messages)
include isOpen

open ThreadHistoryBuilder

theorem IsOpen.pushItem (item : ThreadItem) :
    IsOpen (builder.pushItem item) turns turnId (messages ++ item.userInputs.toList) := by
  obtain ⟨turn, isTurn, isId, explicit, isMessages⟩ := isOpen.current
  have ensured : builder.ensureTurn = turn := by rw [ensureTurn, isTurn, Option.getD_some]
  refine ⟨isOpen.turns_eq, _, rfl, ?_, ?_, ?_⟩
  · rw [ensured]
    exact isId
  · rw [ensured]
    exact explicit
  · rw [ensured, ← isMessages, PendingTurn.userMessages, PendingTurn.userMessages, filterMap_append]
    cases item <;> rfl

theorem IsOpen.takeItemId : IsOpen builder.takeItemId turns turnId messages :=
  ⟨isOpen.turns_eq, isOpen.current⟩

theorem IsOpen.handleUserMessage (message : String) :
    IsOpen (builder.handleUserMessage message) turns turnId
      (messages ++ [buildUserInputs message]) := by
  obtain ⟨turn, isTurn, -, explicit, -⟩ := isOpen.current
  have stays : builder.handleUserMessage message = builder.takeItemId.pushItem
        (.userMessage builder.itemId (buildUserInputs message)) := by
    simp [ThreadHistoryBuilder.handleUserMessage, isTurn, explicit]
  rw [stays]
  exact isOpen.takeItemId.pushItem _

/-- Whether an item neither opens nor closes nor aborts a turn. -/
def isInside : RolloutItem → Bool
  | .eventMsg (.userMessage _) => true
  | .eventMsg (.other _ _) => true
  | .responseItem _ => true
  | .turnContext _ => true
  | _ => false

/-- The user message that an item shows. -/
def shownMessage : RolloutItem → List (List String)
  | .eventMsg (.userMessage message) => [buildUserInputs message]
  | _ => []

variable (env : ThreadEnvironment)

theorem IsOpen.handleRolloutItem {item : RolloutItem} (inside : isInside item = true) :
    IsOpen (builder.handleRolloutItem env item) turns turnId (messages ++ shownMessage item) := by
  have moved : IsOpen { builder with
      currentRolloutIndex := builder.nextRolloutIndex
      nextRolloutIndex := builder.nextRolloutIndex + 1 } turns turnId
        messages := ⟨isOpen.turns_eq, isOpen.current⟩
  have quiet : messages ++ [] = messages := append_nil messages
  cases item with
  | eventMsg event =>
    cases event with
    | userMessage message => exact moved.handleUserMessage message
    | other tag payload =>
      simp only [ThreadHistoryBuilder.handleRolloutItem, ThreadHistoryBuilder.handleEvent]
      split
      · exact moved.takeItemId.pushItem _
      · exact quiet.symm ▸ moved
    | _ => cases inside
  | responseItem item =>
    have nothing : messages ++ shownMessage (.responseItem item) = messages := quiet
    rw [nothing]
    simp only [ThreadHistoryBuilder.handleRolloutItem]
    unfold ThreadHistoryBuilder.handleResponseItem
    split
    · split
      · split
        · rw [← quiet]
          exact moved.pushItem _
        · exact moved
      · exact moved
    · exact moved
  | turnContext context => exact quiet.symm ▸ moved
  | _ => cases inside

theorem IsOpen.foldl {items : List RolloutItem} (inside : ∀ item ∈ items, isInside item = true) :
    IsOpen (items.foldl (ThreadHistoryBuilder.handleRolloutItem env) builder)
      turns turnId (messages ++ items.flatMap shownMessage) := by
  induction items generalizing builder messages with
  | nil => simpa using isOpen
  | cons item items ih =>
    have next := isOpen.handleRolloutItem env (inside item mem_cons_self)
    have later := ih next (forall_mem_cons.mp inside).2
    rw [flatMap_cons, ← append_assoc]
    exact later

omit isOpen in
theorem isOpen_turnStarted (closed : builder.currentTurn = none) (turnId : String) :
    IsOpen (builder.handleRolloutItem env
      (.eventMsg (.turnStarted turnId))) builder.turns turnId [] := by
  have finished : finishCurrentTurn { builder with
      currentRolloutIndex := builder.nextRolloutIndex
      nextRolloutIndex := builder.nextRolloutIndex + 1 } = { builder with
          currentRolloutIndex := builder.nextRolloutIndex
          nextRolloutIndex := builder.nextRolloutIndex + 1 } := by
    simp only [finishCurrentTurn, closed]
  simp only [handleRolloutItem, handleEvent, handleTurnStarted, finished]
  exact ⟨rfl, _, rfl, rfl, rfl, rfl⟩

theorem IsOpen.turnComplete : (builder.handleRolloutItem env
        (.eventMsg (.turnComplete turnId))).currentTurn = none ∧
      (builder.handleRolloutItem env (.eventMsg (.turnComplete turnId))).turns.map
          Turn.userMessages =
        turns.map Turn.userMessages ++ [messages] := by
  obtain ⟨turn, isTurn, isId, explicit, isMessages⟩ := isOpen.current
  have filtered : (some turn).filter (·.id == turnId) = some turn := by simp [Option.filter, isId]
  have same : (Turn.mk turn.id turn.items (ThreadHistoryBuilder.completedStatus
      turn.status)).userMessages = messages := isMessages
  simp [ThreadHistoryBuilder.handleRolloutItem,
    ThreadHistoryBuilder.handleEvent, ThreadHistoryBuilder.handleTurnComplete,
    ThreadHistoryBuilder.finishCurrentTurn, isTurn, filtered, explicit,
    PendingTurn.toTurn, isOpen.turns_eq, same]

omit isOpen

/-- A marker between turns takes back the newest ones. -/
theorem rollback_turns (closed : builder.currentTurn = none) (numTurns : UInt32) :
    (builder.handleRolloutItem env (.eventMsg (.threadRolledBack numTurns))).currentTurn = none ∧
      (builder.handleRolloutItem env (.eventMsg (.threadRolledBack numTurns))).turns =
        builder.turns.take (builder.turns.length - numTurns.toNat) := by
  simp only [handleRolloutItem, handleEvent, handleThreadRollback, finishCurrentTurn, closed]
  refine ⟨trivial, ?_⟩
  split
  · rename_i all
    rw [Nat.sub_eq_zero_of_le all, take_zero]
  · rfl

end Open

end Codex.Session.ThreadHistory
