import Codex.Session.SuffixAgreement

/-!
# Replaying complete turns

A complete turn is everything from its `TurnStarted` event to the matching
`TurnComplete` event.  The reverse pass sees such a turn as one segment: it
opens the segment at `TurnComplete`, lets each interior item observe it, and
finalizes it at `TurnStarted`.  The forward pass appends the turn's response
items to the history.
-/

namespace Codex.Session.TurnReplay

open Protocol.Models Context.ContextualFragments Context.TextTruncation List
  Context.ContextHistory Reconstruction SuffixAgreement

/-! ## Complete turns -/

/-- Items that may stand between the two events of a complete turn. -/
def isTurnInterior : RolloutItem → Bool
  | .compacted _ => false
  | .eventMsg (.turnStarted _) => false
  | .eventMsg (.turnComplete _) => false
  | .eventMsg (.threadRolledBack _) => false
  | _ => true

/-- Items of a turn that may hold compactions with their replacement. -/
def isTurnItem : RolloutItem → Bool
  | .compacted compacted => compacted.replacementHistory.isSome
  | item => isTurnInterior item

theorem isLegacyCompaction_of_isTurnItem {item : RolloutItem} (inTurn : isTurnItem item = true) :
    isLegacyCompaction item = false := by
  cases item with
  | compacted compacted =>
    simpa [isLegacyCompaction, isTurnItem, Option.isSome_iff_ne_none] using inTurn
  | _ => rfl

structure CompleteTurn where
  turnId : String
  body : List RolloutItem
  interior : ∀ item ∈ body, isTurnInterior item = true

def responseItems (rolloutItems : List RolloutItem) : List ResponseItem :=
  rolloutItems.filterMap fun
    | .responseItem item => some item
    | _ => none

@[simp]
theorem responseItems_append (items more : List RolloutItem) : responseItems (items ++ more) =
      responseItems items ++ responseItems more := by
  simp [responseItems]

variable (turn : CompleteTurn)

def CompleteTurn.items : List RolloutItem :=
  .eventMsg (.turnStarted turn.turnId) :: (turn.body ++ [.eventMsg (.turnComplete turn.turnId)])

@[simp]
theorem CompleteTurn.responseItems_items : responseItems turn.items = responseItems turn.body := by
  simp [CompleteTurn.items, responseItems]

variable (turns : List CompleteTurn)

def turnItems : List RolloutItem := turns.flatMap CompleteTurn.items

@[simp]
theorem turnItems_nil : turnItems [] = [] := rfl

@[simp]
theorem turnItems_cons : turnItems (turn :: turns) = turn.items ++ turnItems turns := by
  simp [turnItems]

@[simp]
theorem turnItems_append (turns more : List CompleteTurn) :
    turnItems (turns ++ more) = turnItems turns ++ turnItems more := by
  simp [turnItems]

/-! ## A turn in the reverse pass -/

def observeCompacted (active : ActiveReplaySegment) (compacted : CompactedItem) :
    ActiveReplaySegment :=
  { active.clearBaseline with
    baseReplacementHistory := active.baseReplacementHistory.or compacted.replacementHistory }

variable (decoders : FragmentDecoders)

/-- What an item between the two events does to the segment of its turn. -/
def observe (active : ActiveReplaySegment) : RolloutItem → ActiveReplaySegment
  | .compacted compacted => observeCompacted active compacted
  | .eventMsg (.userMessage _) => { active with countsAsUserTurn := true }
  | .turnContext context => active.observeContext context
  | .responseItem item =>
    { active with
      countsAsUserTurn := active.countsAsUserTurn || isUserTurnBoundary decoders item }
  | _ => active

def CompleteTurn.segment (turn : CompleteTurn) : ActiveReplaySegment :=
  turn.body.reverse.foldl (observe decoders) { turnId := some turn.turnId }

variable (decoders : FragmentDecoders) {active : ActiveReplaySegment}
  {turnId : String} (item : RolloutItem)

theorem observe_turnId (identified : active.turnId = some turnId) :
    (observe decoders active item).turnId = some turnId := by
  cases item with
  | compacted compacted => simpa [observe, observeCompacted] using identified
  | turnContext context =>
    simp only [observe, ActiveReplaySegment.observeContext]
    split <;> simp [identified]
  | eventMsg event => cases event <;> exact identified
  | _ => exact identified

theorem observe_base (active : ActiveReplaySegment)
    {item : RolloutItem} (interior : isTurnInterior item = true) :
    (observe decoders active item).baseReplacementHistory = active.baseReplacementHistory := by
  cases item with
  | compacted compacted => simp [isTurnInterior] at interior
  | turnContext context => simp [observe]
  | eventMsg event => cases event <;> rfl
  | _ => rfl

/-- Inside an identified segment the loop body is `observe`. -/
theorem scanItem_interior (newer : List RolloutItem) (state : ReplayState) {item : RolloutItem}
    (identified : active.turnId = some turnId) (interior : isTurnInterior item = true) :
    scanItem decoders newer (state.withSegment active) item =
      state.withSegment (observe decoders active item) := by
  cases item with
  | compacted compacted => simp [isTurnInterior] at interior
  | eventMsg event =>
    cases event with
    | turnAborted aborted =>
      simp [scanItem, scanTurnAborted, ReplayState.withSegment, observe, identified]
    | turnStarted | turnComplete | threadRolledBack => simp [isTurnInterior] at interior
    | userMessage | other => rfl
  | _ => rfl

theorem reverseScan_cons_of_no_base (older newer : List RolloutItem) (state next : ReplayState)
    (step : scanItem decoders newer state item = next)
    (noBase : next.baseReplacementHistory = none) :
    reverseScan decoders (item :: older) newer state =
      reverseScan decoders older (item :: newer) next := by
  simp [reverseScan, step, ReplayState.isComplete, noBase]

variable {state : ReplayState}

theorem reverseScan_interior (visited older newer : List RolloutItem) (active : ActiveReplaySegment)
    (noBase : state.baseReplacementHistory = none) (identified : active.turnId = some turnId)
    (interior : ∀ item ∈ visited, isTurnInterior item = true) :
    reverseScan decoders (visited ++ older) newer (state.withSegment active) =
      reverseScan decoders older (visited.reverse ++ newer)
        (state.withSegment (visited.foldl (observe decoders) active)) := by
  induction visited generalizing newer active with
  | nil => rfl
  | cons item visited ih =>
    have rest : ∀ later ∈ visited, isTurnInterior later = true := (forall_mem_cons.mp interior).2
    have step := scanItem_interior decoders newer state identified (interior item (by simp))
    rw [cons_append, reverseScan_cons_of_no_base decoders item _ newer _ _ step noBase,
      ih (item :: newer) (observe decoders active item)
        (observe_turnId decoders item identified) rest]
    simp

theorem foldl_observe_turnId (items : List RolloutItem)
    (active : ActiveReplaySegment) (identified : active.turnId = some turnId) :
    (items.foldl (observe decoders) active).turnId = some turnId := by
  induction items generalizing active with
  | nil => exact identified
  | cons item rest ih => exact ih _ (observe_turnId decoders item identified)

theorem foldl_observe_base {items : List RolloutItem} (active : ActiveReplaySegment)
    (interior : ∀ item ∈ items, isTurnInterior item = true) :
    (items.foldl (observe decoders) active).baseReplacementHistory =
      active.baseReplacementHistory := by
  induction items generalizing active with
  | nil => rfl
  | cons item rest ih =>
    rw [foldl_cons, ih _ (forall_mem_cons.mp interior).2,
      observe_base decoders active (interior item (by simp))]

variable (turn : CompleteTurn)

@[simp]
theorem CompleteTurn.segment_turnId : (turn.segment decoders).turnId = some turn.turnId :=
  foldl_observe_turnId decoders _ _ rfl

@[simp]
theorem CompleteTurn.segment_base : (turn.segment decoders).baseReplacementHistory = none :=
  foldl_observe_base decoders _ (by simpa using turn.interior)

theorem foldl_observe_counts {items : List RolloutItem} (active : ActiveReplaySegment)
    (counts : active.countsAsUserTurn = true ∨
      ∃ item, RolloutItem.responseItem item ∈ items ∧ isUserTurnBoundary decoders item = true) :
    (items.foldl (observe decoders) active).countsAsUserTurn = true := by
  induction items generalizing active with
  | nil => simpa using counts
  | cons item rest ih =>
    rw [foldl_cons]
    apply ih
    rcases counts with counted | ⟨boundary, mem, isBoundary⟩
    · left
      cases item with
      | eventMsg event => cases event <;> simp [observe, counted]
      | compacted compacted => simp [observe, observeCompacted, counted]
      | _ => simp [observe, counted]
    · rcases mem_cons.mp mem with here | later
      · left
        simp [← here, observe, isBoundary]
      · exact Or.inr ⟨boundary, later, isBoundary⟩

theorem mem_of_mem_responseItems {items : List RolloutItem} {item : ResponseItem}
    (mem : item ∈ responseItems items) : RolloutItem.responseItem item ∈ items := by
  obtain ⟨rolloutItem, inside, response⟩ := mem_filterMap.mp mem
  cases rolloutItem <;> simp_all

theorem CompleteTurn.segment_counts
    (hasBoundary : ∃ item ∈ responseItems turn.body, isUserTurnBoundary decoders item = true) :
    (turn.segment decoders).countsAsUserTurn = true := by
  obtain ⟨item, mem, isBoundary⟩ := hasBoundary
  exact foldl_observe_counts decoders _ (Or.inr
    ⟨item, by simpa using mem_of_mem_responseItems mem, isBoundary⟩)

/-! ## Turns in the reverse pass -/

theorem finalizeActiveSegment_no_base (noBase : state.baseReplacementHistory = none)
    (segmentNoBase : active.baseReplacementHistory = none) :
    (state.finalizeActiveSegment active).baseReplacementHistory = none := by
  unfold ReplayState.finalizeActiveSegment
  split
  · split <;> exact noBase
  · simp [noBase, segmentNoBase]

theorem reverseScan_turn (older newer : List RolloutItem)
    (noBase : state.baseReplacementHistory = none) (closed : state.activeSegment = none) :
    reverseScan decoders (turn.items.reverse ++ older) newer state =
      reverseScan decoders older (turn.items ++ newer)
        (state.finalizeActiveSegment (turn.segment decoders)) := by
  have opened : scanItem decoders newer state (.eventMsg (.turnComplete turn.turnId)) =
      state.withSegment { turnId := some turn.turnId } := by
    simp [scanItem, ReplayState.segment, closed]
  have started : scanItem decoders (turn.body ++ .eventMsg (.turnComplete turn.turnId) :: newer)
        (state.withSegment (turn.segment decoders))
        (.eventMsg (.turnStarted turn.turnId)) =
      state.finalizeActiveSegment (turn.segment decoders) := by
    have reopened : { state with activeSegment := none } = state := by rw [← closed]
    simp [scanItem, scanTurnStarted, ReplayState.withSegment, turnIdsAreCompatible, reopened]
  have body := reverseScan_interior decoders turn.body.reverse
    (.eventMsg (.turnStarted turn.turnId) :: older)
    (.eventMsg (.turnComplete turn.turnId) :: newer)
    { turnId := some turn.turnId } noBase rfl
    (by simpa using turn.interior)
  rw [reverse_reverse, ← CompleteTurn.segment] at body
  have layout : turn.items.reverse ++ older = .eventMsg (.turnComplete turn.turnId) ::
        (turn.body.reverse ++ .eventMsg (.turnStarted turn.turnId) :: older) := by
    simp [CompleteTurn.items]
  rw [layout, reverseScan_cons_of_no_base decoders _ _ newer state _ opened noBase, body,
    reverseScan_cons_of_no_base decoders _ older _ _ _ started
      (finalizeActiveSegment_no_base noBase (by simp))]
  simp [CompleteTurn.items]

def finalizeTurns (decoders : FragmentDecoders) (turns : List CompleteTurn)
    (state : ReplayState) : ReplayState :=
  turns.foldr (fun turn state =>
      state.finalizeActiveSegment (turn.segment decoders))
    state

variable (turns : List CompleteTurn)

theorem finalizeTurns_frame (state : ReplayState) :
    (finalizeTurns decoders turns state).activeSegment = state.activeSegment ∧
      (finalizeTurns decoders turns state).rolloutSuffix = state.rolloutSuffix := by
  induction turns with
  | nil => exact ⟨rfl, rfl⟩
  | cons turn turns ih => simpa [finalizeTurns] using ih

theorem finalizeTurns_no_base (noBase : state.baseReplacementHistory = none) :
    (finalizeTurns decoders turns state).baseReplacementHistory = none := by
  induction turns with
  | nil => exact noBase
  | cons turn turns ih => exact finalizeActiveSegment_no_base ih (by simp)

theorem finalizeTurns_of_pending (state : ReplayState)
    (counted : ∀ turn ∈ turns, (turn.segment decoders).countsAsUserTurn = true)
    (enough : turns.length ≤ state.pendingRollbackTurns) :
    finalizeTurns decoders turns state = { state with
        pendingRollbackTurns := state.pendingRollbackTurns - turns.length } := by
  induction turns with
  | nil => rfl
  | cons turn turns ih =>
    have restCounted : ∀ later ∈ turns, (later.segment decoders).countsAsUserTurn = true :=
      (forall_mem_cons.mp counted).2
    simp only [length_cons] at enough
    have rest := ih restCounted (by omega)
    have positive : 0 < state.pendingRollbackTurns - turns.length := by omega
    change (finalizeTurns decoders turns state).finalizeActiveSegment (turn.segment decoders) = _
    rw [rest]
    simp [ReplayState.finalizeActiveSegment, positive, counted turn (by simp), Nat.sub_sub]

theorem reverseScan_turns (older newer : List RolloutItem)
    (noBase : state.baseReplacementHistory = none) (closed : state.activeSegment = none) :
    reverseScan decoders ((turnItems turns).reverse ++ older) newer state =
      reverseScan decoders older (turnItems turns ++ newer)
        (finalizeTurns decoders turns state) := by
  induction turns generalizing older with
  | nil => rfl
  | cons turn turns ih =>
    have rest := ih (turn.items.reverse ++ older)
    have frame := (finalizeTurns_frame decoders turns state).1
    rw [turnItems_cons, reverse_append, append_assoc, rest,
      reverseScan_turn decoders turn older _ (finalizeTurns_no_base decoders turns noBase)
        (frame.trans closed),
      append_assoc]
    rfl

/-! ## Turns in the forward pass -/

variable (env : HistoryEnvironment) (policy : TruncationPolicy)

theorem recordItems_append (history : ContextManager) (items more : List ResponseItem) :
    (history.recordItems env policy items).recordItems env policy more =
      history.recordItems env policy (items ++ more) := by
  simp [ContextManager.recordItems]

theorem foldl_materializeItem_interior {items : List RolloutItem} (state : MaterializedHistory)
    (interior : ∀ item ∈ items, isTurnInterior item = true) :
    items.foldl (materializeItem env policy) state = { state with
        history := state.history.recordItems env policy (responseItems items) } := by
  induction items generalizing state with
  | nil => simp [responseItems, ContextManager.recordItems, recorded]
  | cons item rest ih =>
    have restInterior : ∀ later ∈ rest, isTurnInterior later = true :=
      (forall_mem_cons.mp interior).2
    have here := interior item (by simp)
    rw [foldl_cons, ih _ restInterior]
    cases item with
    | responseItem item => simp [materializeItem, responseItems, recordItems_append]
    | compacted compacted => simp [isTurnInterior] at here
    | eventMsg event =>
      cases event <;>
        simp_all [isTurnInterior, materializeItem, responseItems]
    | _ => simp [materializeItem, responseItems]

/-- The forward pass appends the response items of complete turns. -/
theorem foldl_materializeItem_turns (turns : List CompleteTurn) (state : MaterializedHistory) :
    (turnItems turns).foldl (materializeItem env policy) state = { state with
        history := state.history.recordItems env policy (responseItems (turnItems turns)) } := by
  induction turns generalizing state with
  | nil => simp [responseItems, ContextManager.recordItems, recorded]
  | cons turn turns ih =>
    have body := foldl_materializeItem_interior env policy state turn.interior
    have whole : turn.items.foldl (materializeItem env policy) state = { state with
          history := state.history.recordItems env policy (responseItems turn.body) } := by
      simp [CompleteTurn.items, materializeItem, body]
    rw [turnItems_cons, foldl_append, whole, ih]
    simp [recordItems_append]

end Codex.Session.TurnReplay
