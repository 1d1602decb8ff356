import Codex.Context.CompactedHistory

/-!
# Rebuilding a session from its rollout

The model of `core/src/session/rollout_reconstruction.rs`.  A rollout is read
twice.  A reverse pass scans it from the newest item to the oldest, groups the
items into turn segments, and finds the newest surviving replacement history
together with the resume metadata.  A forward pass then replays the suffix of
the rollout that the reverse pass selected, from that base.
-/

namespace Codex.Session.Reconstruction

open Rust.Text Protocol.Models Context.ContextualFragments
  Context.TextTruncation Context.ContextHistory Context.CompactedHistory

/-! ## Replay segments -/

inductive TurnReferenceContextItem where
  | neverSet
  | cleared
  | latest (item : TurnContextItem)
deriving DecidableEq

structure ActiveReplaySegment where
  turnId : Option String := none
  countsAsUserTurn : Bool := false
  previousTurnSettings : Option PreviousTurnSettings := none
  referenceContextItem : TurnReferenceContextItem := .neverSet
  baseReplacementHistory : Option (List ResponseItem) := none
deriving DecidableEq

def turnIdsAreCompatible (activeTurnId itemTurnId : Option String) : Bool :=
  match activeTurnId, itemTurnId with
  | some active, some item => item == active
  | _, _ => true

/-- The mutable variables of the reverse pass. -/
structure ReplayState where
  baseReplacementHistory : Option (List ResponseItem)
  previousTurnSettings : Option PreviousTurnSettings
  referenceContextItem : TurnReferenceContextItem
  pendingRollbackTurns : Nat
  rolloutSuffix : List RolloutItem
  activeSegment : Option ActiveReplaySegment
deriving DecidableEq

variable (state : ReplayState)

namespace ReplayState

def initial (rolloutItems : List RolloutItem) : ReplayState where
  baseReplacementHistory := none
  previousTurnSettings := none
  referenceContextItem := .neverSet
  pendingRollbackTurns := 0
  rolloutSuffix := rolloutItems
  activeSegment := none

/-- The segment that `get_or_insert_with(Default::default)` yields. -/
def segment : ActiveReplaySegment := state.activeSegment.getD {}

def withSegment (segment : ActiveReplaySegment) : ReplayState :=
  { state with activeSegment := some segment }

def finalizeActiveSegment (active : ActiveReplaySegment) : ReplayState :=
  if 0 < state.pendingRollbackTurns then
    if active.countsAsUserTurn then
      { state with
        pendingRollbackTurns := state.pendingRollbackTurns - 1 }
    else state
  else
    { state with
      baseReplacementHistory :=
        match state.baseReplacementHistory with
        | none => active.baseReplacementHistory
        | some base => some base
      previousTurnSettings :=
        if state.previousTurnSettings.isNone &&
            active.countsAsUserTurn then
          active.previousTurnSettings
        else state.previousTurnSettings
      referenceContextItem :=
        if state.referenceContextItem = .neverSet ∧
            (active.countsAsUserTurn = true ∨ active.referenceContextItem = .cleared) then
          active.referenceContextItem
        else state.referenceContextItem }

def isComplete : Bool := state.baseReplacementHistory.isSome &&
    state.previousTurnSettings.isSome &&
    state.referenceContextItem != .neverSet

end ReplayState

@[simp]
theorem finalizeActiveSegment_activeSegment (active : ActiveReplaySegment) :
    (state.finalizeActiveSegment active).activeSegment = state.activeSegment := by
  unfold ReplayState.finalizeActiveSegment
  split
  · split <;> rfl
  · rfl

@[simp]
theorem finalizeActiveSegment_rolloutSuffix (active : ActiveReplaySegment) :
    (state.finalizeActiveSegment active).rolloutSuffix = state.rolloutSuffix := by
  unfold ReplayState.finalizeActiveSegment
  split
  · split <;> rfl
  · rfl

/-! ## The reverse pass -/

/--
Looking backward, a compaction clears any older baseline unless a newer item
of the segment has re-established it.
-/
def ActiveReplaySegment.clearBaseline (active : ActiveReplaySegment) : ActiveReplaySegment :=
  if active.referenceContextItem = .neverSet then { active with referenceContextItem := .cleared }
  else active

variable (active : ActiveReplaySegment)

@[simp]
theorem ActiveReplaySegment.clearBaseline_base :
    active.clearBaseline.baseReplacementHistory = active.baseReplacementHistory := by
  unfold clearBaseline
  split <;> rfl

@[simp]
theorem ActiveReplaySegment.clearBaseline_turnId : active.clearBaseline.turnId = active.turnId := by
  unfold clearBaseline
  split <;> rfl

@[simp]
theorem ActiveReplaySegment.clearBaseline_counts :
    active.clearBaseline.countsAsUserTurn = active.countsAsUserTurn := by
  unfold clearBaseline
  split <;> rfl

def scanCompacted (newer : List RolloutItem) (state : ReplayState)
    (compacted : CompactedItem) : ReplayState :=
  let active := state.segment.clearBaseline
  match compacted.replacementHistory with
  | none => state.withSegment active
  | some replacementHistory =>
    if active.baseReplacementHistory.isNone then
      { state with
        rolloutSuffix := newer
        activeSegment := some { active with
            baseReplacementHistory := some replacementHistory } }
    else state.withSegment active

def scanTurnAborted (state : ReplayState) (turnId : Option String) : ReplayState :=
  match state.activeSegment with
  | some active =>
    if active.turnId.isNone then state.withSegment { active with turnId := turnId }
    else state
  | none =>
    match turnId with
    | some turnId => state.withSegment { turnId := some turnId }
    | none => state

/-- What a `TurnContext` item attaches to the open segment. -/
def ActiveReplaySegment.observeContext (active : ActiveReplaySegment) (context : TurnContextItem) :
    ActiveReplaySegment :=
  let turnId := active.turnId.or context.turnId
  if turnIdsAreCompatible turnId context.turnId then
    { active with
      turnId := turnId
      previousTurnSettings := some ⟨context.model, context.realtimeActive⟩
      referenceContextItem :=
        if active.referenceContextItem = .neverSet then .latest context
        else active.referenceContextItem }
  else { active with turnId := turnId }

variable (context : TurnContextItem)

@[simp]
theorem ActiveReplaySegment.observeContext_base :
    (active.observeContext context).baseReplacementHistory = active.baseReplacementHistory := by
  simp only [observeContext]
  split <;> rfl

@[simp]
theorem ActiveReplaySegment.observeContext_counts :
    (active.observeContext context).countsAsUserTurn = active.countsAsUserTurn := by
  simp only [observeContext]
  split <;> rfl

def scanTurnContext : ReplayState := state.withSegment (state.segment.observeContext context)

def scanTurnStarted (state : ReplayState) (turnId : String) : ReplayState :=
  match state.activeSegment with
  | none => state
  | some active =>
    if turnIdsAreCompatible active.turnId (some turnId) then
      { state with activeSegment := none }.finalizeActiveSegment active
    else state

variable (decoders : FragmentDecoders)

/-- One iteration of the reverse loop, up to the early exit. -/
def scanItem (newer : List RolloutItem) (state : ReplayState) : RolloutItem → ReplayState
  | .compacted compacted => scanCompacted newer state compacted
  | .eventMsg (.threadRolledBack numTurns) =>
    { state with
      pendingRollbackTurns := saturatingAdd state.pendingRollbackTurns numTurns.toNat }
  | .eventMsg (.turnComplete turnId) =>
    let active := state.segment
    state.withSegment { active with turnId := active.turnId.or (some turnId) }
  | .eventMsg (.turnAborted turnId) => scanTurnAborted state turnId
  | .eventMsg (.userMessage _) => state.withSegment { state.segment with countsAsUserTurn := true }
  | .turnContext context => scanTurnContext state context
  | .eventMsg (.turnStarted turnId) => scanTurnStarted state turnId
  | .responseItem item =>
    let active := state.segment
    state.withSegment { active with
        countsAsUserTurn := active.countsAsUserTurn || isUserTurnBoundary decoders item }
  | .eventMsg (.other _ _) => state
  | .sessionMeta _ => state

/--
The reverse loop.  `older` is what is still to be visited, newest first, and
`newer` is what was visited, in rollout order.
-/
def reverseScan (decoders : FragmentDecoders) :
    List RolloutItem → List RolloutItem → ReplayState → ReplayState
  | [], _, state => state
  | item :: older, newer, state =>
    let next := scanItem decoders newer state item
    if next.isComplete then next
    else reverseScan decoders older (item :: newer) next

def reverseReplay (rolloutItems : List RolloutItem) : ReplayState :=
  let state := reverseScan decoders rolloutItems.reverse [] (ReplayState.initial rolloutItems)
  match state.activeSegment with
  | none => state
  | some active => { state with activeSegment := none }.finalizeActiveSegment active

/-! ## The forward pass -/

/-- The mutable variables of the forward pass. -/
structure MaterializedHistory where
  history : ContextManager
  sawLegacyCompaction : Bool
deriving DecidableEq

variable (env : HistoryEnvironment) (policy : TruncationPolicy)

def materializeItem (state : MaterializedHistory) : RolloutItem → MaterializedHistory
  | .responseItem item =>
    { state with
      history := state.history.recordItems env policy [item] }
  | .compacted compacted =>
    match compacted.replacementHistory with
    | some replacementHistory =>
      { state with
        history := state.history.replace replacementHistory }
    | none =>
      { history := state.history.replace (buildCompactedHistory []
              (collectUserMessages env.decoders state.history.items)
              compacted.message)
        sawLegacyCompaction := true }
  | .eventMsg (.threadRolledBack numTurns) =>
    { state with
      history := state.history.dropLastNUserTurns env.decoders numTurns }
  | _ => state

/-- The forward pass over the selected suffix. -/
def materialize (base : Option (List ResponseItem))
    (rolloutSuffix : List RolloutItem) : MaterializedHistory :=
  let history :=
    match base with
    | none => ContextManager.new
    | some items => ContextManager.new.replace items
  rolloutSuffix.foldl (materializeItem env policy) ⟨history, false⟩

/-! ## Reconstruction -/

structure RolloutReconstruction where
  history : List ResponseItem
  previousTurnSettings : Option PreviousTurnSettings
  referenceContextItem : Option TurnContextItem
deriving DecidableEq

/-- The baseline that a replay leaves for the resumed session. -/
def TurnReferenceContextItem.baseline : TurnReferenceContextItem → Option TurnContextItem
  | .latest item => some item
  | _ => none

def reconstructHistoryFromRollout (rolloutItems : List RolloutItem) : RolloutReconstruction :=
  let replay := reverseReplay env.decoders rolloutItems
  let materialized := materialize env policy replay.baseReplacementHistory replay.rolloutSuffix
  { history := materialized.history.items
    previousTurnSettings := replay.previousTurnSettings
    referenceContextItem :=
      if materialized.sawLegacyCompaction then none
      else replay.referenceContextItem.baseline }

end Codex.Session.Reconstruction
