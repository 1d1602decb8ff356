import Codex.Session.TurnReplay

/-!
# History and metadata under repeated rollback

The reverse pass counts rolled-back turns by finalized segments, and the
forward pass counts them by boundary messages in the flat history.  For a
rollout of complete turns followed by rollback markers, this module computes
both results and states exactly when they speak about the same turns: the
rolled-back turns may not hold more boundary messages than the markers count.
A turn that was steered with a second user message breaks that condition.
-/

namespace Codex.Session.RollbackSync

open Rust.Text Protocol.Models Context.ContextualFragments List
  Context.TextTruncation Context.ContextHistory Library.MarkedCuts
  Reconstruction TurnReplay

/-! ## Turns with a context -/

def isTurnContext : RolloutItem → Bool
  | .turnContext _ => true
  | _ => false

/--
A complete turn with one `TurnContext` of its own and at least one boundary
message.
-/
structure ContextTurn (decoders : FragmentDecoders)
    extends CompleteTurn where
  earlier : List RolloutItem
  context : TurnContextItem
  later : List RolloutItem
  layout : body = earlier ++ .turnContext context :: later
  earlierPlain : ∀ item ∈ earlier, isTurnContext item = false
  laterPlain : ∀ item ∈ later, isTurnContext item = false
  owned : turnIdsAreCompatible (some turnId) context.turnId = true
  instructed : (responseItems body).any (isUserTurnBoundary decoders) = true

theorem foldl_observe_reference (decoders : FragmentDecoders) {items : List RolloutItem}
    (active : ActiveReplaySegment) (interior : ∀ item ∈ items, isTurnInterior item = true)
    (plain : ∀ item ∈ items, isTurnContext item = false) :
    (items.foldl (observe decoders) active).referenceContextItem = active.referenceContextItem := by
  induction items generalizing active with
  | nil => rfl
  | cons item rest ih =>
    rw [foldl_cons, ih _ (forall_mem_cons.mp interior).2 (forall_mem_cons.mp plain).2]
    have inside := interior item (by simp)
    have here := plain item (by simp)
    cases item with
    | compacted compacted => simp [isTurnInterior] at inside
    | turnContext context => simp [isTurnContext] at here
    | eventMsg event => cases event <;> rfl
    | _ => rfl

namespace ContextTurn

variable {decoders : FragmentDecoders} (turn : ContextTurn decoders)

theorem segment_counts : (turn.segment decoders).countsAsUserTurn = true :=
  turn.toCompleteTurn.segment_counts decoders (any_eq_true.mp turn.instructed)

theorem segment_reference :
    (turn.segment decoders).referenceContextItem = .latest turn.context := by
  have order : turn.body.reverse = turn.later.reverse ++
        .turnContext turn.context :: turn.earlier.reverse := by
    simp [turn.layout]
  have earlierInterior : ∀ item ∈ turn.earlier.reverse,
      isTurnInterior item = true := fun item mem =>
    turn.interior item (by simp_all [turn.layout])
  have laterInterior : ∀ item ∈ turn.later.reverse, isTurnInterior item = true := fun item mem =>
    turn.interior item (by simp_all [turn.layout])
  unfold CompleteTurn.segment
  rw [order, foldl_append, foldl_cons,
    foldl_observe_reference decoders _ earlierInterior (by simpa using turn.earlierPlain)]
  set active := turn.later.reverse.foldl (observe decoders)
    { turnId := some turn.turnId } with activeEq
  have identified : active.turnId = some turn.turnId := foldl_observe_turnId decoders _ _ rfl
  have neverSet : active.referenceContextItem = .neverSet :=
    foldl_observe_reference decoders _ laterInterior (by simpa using turn.laterPlain)
  simp [observe, ActiveReplaySegment.observeContext, identified, neverSet, turn.owned]

def boundaries (turn : ContextTurn decoders) : Nat :=
  (responseItems turn.body).countP (isUserTurnBoundary decoders)

theorem boundaries_pos : 0 < turn.boundaries := by
  rw [boundaries, countP_pos_iff]
  exact any_eq_true.mp turn.instructed

end ContextTurn

def contextTurnItems {decoders : FragmentDecoders}
    (turns : List (ContextTurn decoders)) : List RolloutItem :=
  turnItems (turns.map ContextTurn.toCompleteTurn)

variable {decoders : FragmentDecoders} (turns : List (ContextTurn decoders))

@[simp]
theorem contextTurnItems_append (more : List (ContextTurn decoders)) :
    contextTurnItems (turns ++ more) = contextTurnItems turns ++ contextTurnItems more := by
  simp [contextTurnItems]

open ContextTurn

theorem countP_contextTurnItems :
    (responseItems (contextTurnItems turns)).countP (isUserTurnBoundary decoders) =
      (turns.map boundaries).sum := by
  induction turns with
  | nil => rfl
  | cons turn turns ih =>
    unfold contextTurnItems at ih ⊢
    simp [ih, boundaries]

theorem length_le_boundaries : turns.length ≤ (turns.map boundaries).sum := by
  induction turns with
  | nil => simp
  | cons turn turns ih =>
    have positive := turn.boundaries_pos
    simp only [length_cons, map_cons, sum_cons]
    omega

/-! ## Surviving turns give the baseline -/

theorem finalizeTurns_reference_of_set (decoders : FragmentDecoders) (turns : List CompleteTurn)
    {state : ReplayState} {reference : TurnReferenceContextItem}
    (isSet : state.referenceContextItem = reference) (established : reference ≠ .neverSet) :
    (finalizeTurns decoders turns state).referenceContextItem = reference := by
  induction turns with
  | nil => exact isSet
  | cons turn turns ih =>
    change ((finalizeTurns decoders turns state).finalizeActiveSegment _).referenceContextItem = _
    unfold ReplayState.finalizeActiveSegment
    split
    · split <;> exact ih
    · simp [ih, established]

theorem finalizeTurns_append (decoders : FragmentDecoders) (turns more : List CompleteTurn)
    (state : ReplayState) :
    finalizeTurns decoders (turns ++ more) state = finalizeTurns decoders turns
        (finalizeTurns decoders more state) := by
  simp [finalizeTurns]

theorem finalizeTurns_reference (state : ReplayState)
    (noPending : turns ≠ [] → state.pendingRollbackTurns = 0)
    (neverSet : state.referenceContextItem = .neverSet) :
    (finalizeTurns decoders (turns.map toCompleteTurn) state).referenceContextItem.baseline =
      turns.getLast?.map context := by
  induction turns using reverseRecOn with
  | nil => simp [finalizeTurns, neverSet, TurnReferenceContextItem.baseline]
  | append_singleton front last =>
    have pending := noPending (by simp)
    have newest : (state.finalizeActiveSegment (last.segment decoders)).referenceContextItem =
          .latest last.context := by
      simp [ReplayState.finalizeActiveSegment, pending, neverSet,
        last.segment_counts, last.segment_reference]
    have kept := finalizeTurns_reference_of_set decoders (front.map toCompleteTurn) newest (by simp)
    have order : finalizeTurns decoders ((front ++ [last]).map toCompleteTurn) state =
        finalizeTurns decoders (front.map toCompleteTurn)
          (state.finalizeActiveSegment (last.segment decoders)) := by
      rw [map_append, finalizeTurns_append]
      rfl
    rw [order, kept]
    simp [TurnReferenceContextItem.baseline]

/-! ## Rollback markers -/

def markerItems (markers : List UInt32) : List RolloutItem :=
  markers.map fun numTurns => .eventMsg (.threadRolledBack numTurns)

/-- The number of turns that a list of markers rolls back. -/
def rolledBack (markers : List UInt32) : Nat := (markers.map UInt32.toNat).sum

theorem reverseScan_markers (decoders : FragmentDecoders) (visited : List UInt32)
    (older newer : List RolloutItem) (state : ReplayState)
    (noBase : state.baseReplacementHistory = none)
    (bounded : state.pendingRollbackTurns ≤ usizeMax) :
    reverseScan decoders (markerItems visited ++ older) newer state = reverseScan decoders older
        ((markerItems visited).reverse ++ newer)
        { state with
          pendingRollbackTurns := saturatingAdd state.pendingRollbackTurns
              (rolledBack visited) } := by
  induction visited generalizing newer state with
  | nil =>
    have same : saturatingAdd state.pendingRollbackTurns
        (rolledBack []) = state.pendingRollbackTurns := by
      simp [saturatingAdd, rolledBack, bounded]
    rw [same]
    rfl
  | cons numTurns visited ih =>
    have step : scanItem decoders newer state (.eventMsg (.threadRolledBack numTurns)) =
        { state with
          pendingRollbackTurns := saturatingAdd state.pendingRollbackTurns numTurns.toNat } := rfl
    have total : saturatingAdd (saturatingAdd state.pendingRollbackTurns numTurns.toNat)
          (rolledBack visited) =
        saturatingAdd state.pendingRollbackTurns (rolledBack (numTurns :: visited)) := by
      simp only [saturatingAdd, rolledBack, map_cons, sum_cons]
      omega
    have head : markerItems (numTurns :: visited) = .eventMsg (.threadRolledBack numTurns) ::
          markerItems visited := rfl
    have rest := ih (.eventMsg (.threadRolledBack numTurns) :: newer) { state with
        pendingRollbackTurns := saturatingAdd state.pendingRollbackTurns numTurns.toNat }
      noBase (Nat.min_le_right _ _)
    rw [head, cons_append, reverseScan_cons_of_no_base decoders _ _ newer state _ step
        noBase, rest, total]
    simp

/-- The forward pass cuts off the turns of all markers at once. -/
theorem foldl_materializeItem_markers (env : HistoryEnvironment) (policy : TruncationPolicy)
    (markers : List UInt32) (state : MaterializedHistory) :
    let replayed := (markerItems markers).foldl (materializeItem env policy) state
    replayed.sawLegacyCompaction = state.sawLegacyCompaction ∧ replayed.history.items =
        dropMarked (isUserTurnBoundary env.decoders) (isContextualMessage env.decoders)
          (rolledBack markers) state.history.items := by
  induction markers generalizing state with
  | nil => simp [markerItems, rolledBack]
  | cons numTurns markers ih =>
    obtain ⟨flag, items⟩ := ih (materializeItem env policy state
        (.eventMsg (.threadRolledBack numTurns)))
    refine ⟨flag, items.trans ?_⟩
    simp only [materializeItem, dropLastNUserTurns_items, rolledBack, map_cons, sum_cons]
    exact dropMarked_dropMarked _ _ (isUserTurnBoundary_of_contextual env.decoders) _ _ _

/-! ## Both results after rollbacks -/

def rolledBackRollout {decoders : FragmentDecoders}
    (turns : List (ContextTurn decoders)) (markers : List UInt32) : List RolloutItem :=
  contextTurnItems turns ++ markerItems markers

/-- The turns whose segments the markers leave. -/
def keptTurns {decoders : FragmentDecoders}
    (turns : List (ContextTurn decoders)) (markers : List UInt32) : List (ContextTurn decoders) :=
  turns.take (turns.length - rolledBack markers)

/-- The turns whose segments the markers roll back. -/
def droppedTurns {decoders : FragmentDecoders}
    (turns : List (ContextTurn decoders)) (markers : List UInt32) : List (ContextTurn decoders) :=
  turns.drop (turns.length - rolledBack markers)

variable (markers : List UInt32)

theorem keptTurns_append_droppedTurns :
    keptTurns turns markers ++ droppedTurns turns markers = turns :=
  take_append_drop _ _

theorem length_droppedTurns :
    (droppedTurns turns markers).length = min turns.length (rolledBack markers) := by
  simp only [droppedTurns, length_drop]
  omega

/-- The reverse pass of a rollout after it visited the markers. -/
def markedState (rolloutItems : List RolloutItem) (markers : List UInt32) : ReplayState :=
  { ReplayState.initial rolloutItems with
    pendingRollbackTurns := min (rolledBack markers) usizeMax }

theorem reverseReplay_rolledBack : reverseReplay decoders (rolledBackRollout turns markers) =
      finalizeTurns decoders (turns.map toCompleteTurn)
        (markedState (rolledBackRollout turns markers) markers) := by
  set rollout := rolledBackRollout turns markers with rolloutEq
  have reversed : rollout.reverse = markerItems markers.reverse ++
        ((contextTurnItems turns).reverse ++ []) := by
    simp [rolloutEq, rolledBackRollout, markerItems]
  have total : saturatingAdd 0 (rolledBack markers.reverse) =
      min (rolledBack markers) usizeMax := by
    simp [saturatingAdd, rolledBack, map_reverse, sum_reverse]
  have scanned : reverseScan decoders rollout.reverse [] (ReplayState.initial rollout) =
      finalizeTurns decoders (turns.map toCompleteTurn) (markedState rollout markers) := by
    have marked := reverseScan_markers decoders markers.reverse
      ((contextTurnItems turns).reverse ++ []) []
      (ReplayState.initial rollout) rfl (Nat.zero_le _)
    rw [reversed, marked, markedState, ← total, contextTurnItems,
      reverseScan_turns decoders _ [] _ rfl rfl]
    rfl
  have closed : (finalizeTurns decoders (turns.map toCompleteTurn)
      (markedState rollout markers)).activeSegment = none :=
    (finalizeTurns_frame decoders _ _).1
  unfold reverseReplay
  rw [scanned]
  simp only [closed]

theorem reverseReplay_rolledBack_reference (addressable : turns.length ≤ usizeMax) :
    (reverseReplay decoders (rolledBackRollout turns markers)).referenceContextItem.baseline =
      (keptTurns turns markers).getLast?.map context := by
  have dropped := length_droppedTurns turns markers
  have skipped := finalizeTurns_of_pending decoders
    ((droppedTurns turns markers).map toCompleteTurn)
    (markedState (rolledBackRollout turns markers) markers)
    (by
      intro turn mem
      obtain ⟨source, _, rfl⟩ := mem_map.mp mem
      exact source.segment_counts)
    (by simp only [length_map, markedState]; omega)
  have split : turns.map toCompleteTurn = (keptTurns turns markers).map toCompleteTurn ++
        (droppedTurns turns markers).map toCompleteTurn := by
    rw [← map_append, keptTurns_append_droppedTurns]
  rw [reverseReplay_rolledBack, split, finalizeTurns_append, skipped]
  apply finalizeTurns_reference
  · intro nonempty
    have positive := length_pos_iff.mpr nonempty
    simp only [keptTurns, length_take] at positive
    simp only [length_map, markedState]
    omega
  · rfl

/-- No base is found, so the forward pass replays the whole rollout. -/
theorem reverseReplay_rolledBack_frame : (reverseReplay decoders
        (rolledBackRollout turns markers)).baseReplacementHistory =
        none ∧
      (reverseReplay decoders (rolledBackRollout turns markers)).rolloutSuffix =
        rolledBackRollout turns markers := by
  rw [reverseReplay_rolledBack]
  exact ⟨finalizeTurns_no_base _ _ rfl, (finalizeTurns_frame _ _ _).2⟩

variable (env : HistoryEnvironment) (policy : TruncationPolicy)

/-- The recorded turns with the counted boundaries cut off. -/
def cutHistory (turns : List (ContextTurn env.decoders)) (markers : List UInt32) :
    List ResponseItem := dropMarked (isUserTurnBoundary env.decoders)
  (isContextualMessage env.decoders) (rolledBack markers)
  (recorded env policy (responseItems (contextTurnItems turns)))

/--
The forward pass sees no legacy compaction, and its history is the recorded
turns with the counted boundaries cut off.
-/
theorem materialize_rolledBack (turns : List (ContextTurn env.decoders)) (markers : List UInt32) :
    (materialize env policy none (rolledBackRollout turns markers)).sawLegacyCompaction = false ∧
      (materialize env policy none (rolledBackRollout turns markers)).history.items =
        cutHistory env policy turns markers := by
  simp only [materialize, rolledBackRollout, foldl_append,
    contextTurnItems, foldl_materializeItem_turns]
  exact foldl_materializeItem_markers env policy markers _

theorem reconstructHistory_rolledBack (policy : TruncationPolicy)
    {turns : List (ContextTurn env.decoders)} (markers : List UInt32)
    (addressable : turns.length ≤ usizeMax) :
    let result := reconstructHistoryFromRollout env policy (rolledBackRollout turns markers)
    result.referenceContextItem = (keptTurns turns markers).getLast?.map context ∧
      result.history = cutHistory env policy turns markers := by
  obtain ⟨base, suffix⟩ := reverseReplay_rolledBack_frame turns markers
  obtain ⟨flag, items⟩ := materialize_rolledBack env policy turns markers
  have reference := reverseReplay_rolledBack_reference turns markers addressable
  simp only [reconstructHistoryFromRollout, base, suffix, flag, items,
    reference, Bool.false_eq_true, if_false, and_self]

/-! ## When history and metadata agree -/

/-- The boundary messages of the turns that the markers roll back. -/
def droppedBoundaries {decoders : FragmentDecoders}
    (turns : List (ContextTurn decoders)) (markers : List UInt32) : Nat :=
  ((droppedTurns turns markers).map ContextTurn.boundaries).sum

theorem sum_boundaries_split : (turns.map boundaries).sum =
      ((keptTurns turns markers).map boundaries).sum + droppedBoundaries turns markers := by
  conv_lhs => rw [← keptTurns_append_droppedTurns turns markers]
  simp [droppedBoundaries]

/--
The boundaries that stay are those of the kept turns exactly when the
rolled-back turns hold no more boundaries than the markers count.
-/
theorem remaining_boundaries_iff : (turns.map ContextTurn.boundaries).sum - rolledBack markers =
        ((keptTurns turns markers).map ContextTurn.boundaries).sum ↔
      droppedBoundaries turns markers ≤ rolledBack markers := by
  have split := sum_boundaries_split turns markers
  have dropped := length_droppedTurns turns markers
  have enough := length_le_boundaries (droppedTurns turns markers)
  change _ ≤ droppedBoundaries turns markers at enough
  rcases Nat.le_total turns.length (rolledBack markers) with all | some
  · have noneKept : keptTurns turns markers = [] := by simp [keptTurns, Nat.sub_eq_zero_of_le all]
    rw [noneKept] at split ⊢
    simp only [map_nil, sum_nil] at split ⊢
    omega
  · omega

def turnsInHistory {decoders : FragmentDecoders}
    (turns : List (ContextTurn decoders)) (boundaries : Nat) : List (ContextTurn decoders) :=
  coveringFront ContextTurn.boundaries boundaries turns

theorem turnsInHistory_eq_keptTurns_iff :
    turnsInHistory turns ((turns.map boundaries).sum - rolledBack markers) =
        keptTurns turns markers ↔
      droppedBoundaries turns markers ≤ rolledBack markers := by
  rw [← remaining_boundaries_iff]
  have covered := coveringFront_sum_append boundaries
    (keptTurns turns markers) (droppedTurns turns markers)
    fun turn _ => turn.boundaries_pos
  rw [keptTurns_append_droppedTurns] at covered
  constructor
  · intro same
    by_contra apart
    have split := sum_boundaries_split turns markers
    have enough := length_le_boundaries (droppedTurns turns markers)
    have above : ((keptTurns turns markers).map boundaries).sum <
          (turns.map boundaries).sum - rolledBack markers := by
      have beyond := mt (remaining_boundaries_iff turns markers).mpr apart
      omega
    cases droppedEq : droppedTurns turns markers with
    | nil =>
      simp only [droppedBoundaries, droppedEq, map_nil, sum_nil] at split
      omega
    | cons next rest =>
      obtain ⟨more, reaches⟩ := coveringFront_append_of_lt
        boundaries _ next rest
        above
      rw [← droppedEq, keptTurns_append_droppedTurns] at reaches
      have longer := congrArg List.length (same.symm.trans reaches)
      simp at longer
  · intro remaining
    rw [remaining]
    exact covered

/-- What the rolled-back turns recorded before their first boundary message. -/
def leadOf (env : HistoryEnvironment) (policy : TruncationPolicy)
    (turns : List (ContextTurn env.decoders)) (markers : List UInt32) : List ResponseItem :=
  (recorded env policy (responseItems (contextTurnItems (droppedTurns turns markers)))).takeWhile
    fun item => !isUserTurnBoundary env.decoders item

/--
What history the kept turns and the first rolled-back turn leave: the kept
turns, then what was recorded before the next boundary, with the contextual
messages at the end trimmed.
-/
def survivingHistory (env : HistoryEnvironment) (policy : TruncationPolicy)
    (turns : List (ContextTurn env.decoders)) (markers : List UInt32) : List ResponseItem :=
  let kept := recorded env policy
    (responseItems (contextTurnItems (keptTurns turns markers)))
  if rolledBack markers = 0 then kept
  else if (keptTurns turns markers).isEmpty then leadOf env policy turns markers
  else (kept ++ leadOf env policy turns markers).rdropWhile (isContextualMessage env.decoders)

theorem dropMarked_eq_survivingHistory
    {turns : List (ContextTurn env.decoders)} {markers : List UInt32}
    (covered : droppedBoundaries turns markers ≤ rolledBack markers) :
    cutHistory env policy turns markers = survivingHistory env policy turns markers := by
  unfold cutHistory
  have split := keptTurns_append_droppedTurns turns markers
  have remaining := (remaining_boundaries_iff turns markers).mpr covered
  have sums := sum_boundaries_split turns markers
  have count : ∀ part : List (ContextTurn env.decoders), (recorded env policy
        (responseItems (contextTurnItems part))).countP (isUserTurnBoundary env.decoders) =
        (part.map boundaries).sum := by
    intro part
    rw [countP_recorded, countP_contextTurnItems]
  have parts : recorded env policy (responseItems (contextTurnItems turns)) =
      recorded env policy (responseItems (contextTurnItems (keptTurns turns markers))) ++
        recorded env policy (responseItems (contextTurnItems (droppedTurns turns markers))) := by
    conv_lhs => rw [← split]
    simp
  unfold survivingHistory
  by_cases zero : rolledBack markers = 0
  · have all : keptTurns turns markers = turns := by simp [keptTurns, zero]
    simp only [zero, if_true, dropMarked_zero, all]
  rw [if_neg zero]
  cases kept : keptTurns turns markers with
  | nil =>
    rw [kept, nil_append] at split
    rw [kept] at sums
    simp only [map_nil, sum_nil] at sums
    rw [dropMarked_of_le _ _ _ _ (by omega) (by rw [count]; omega), beforeMark_zero, leadOf, split]
    rfl
  | cons oldest others =>
    have positive : 0 < ((keptTurns turns markers).map boundaries).sum := by
      have oldestPositive := oldest.boundaries_pos
      simp only [kept, map_cons, sum_cons]
      omega
    rw [dropMarked_of_lt _ _ _ _ (by omega) (by rw [count]; omega), count, remaining, ← kept, parts,
      beforeMark_append _ _ _ _ (by rw [count]), count, Nat.sub_self,
      beforeMark_zero]
    simp [kept, leadOf]

/-! ## The two passes in sync -/

/-- The turns that still have a boundary message in a history. -/
def turnsLeft {env : HistoryEnvironment} (turns : List (ContextTurn env.decoders))
    (result : RolloutReconstruction) :
    List (ContextTurn env.decoders) :=
  turnsInHistory turns (result.history.countP (isUserTurnBoundary env.decoders))

/--
The baseline is the context of the newest turn that has a boundary message
left, and the history holds nothing of a newer turn.
-/
structure InSync (env : HistoryEnvironment) (policy : TruncationPolicy)
    (turns : List (ContextTurn env.decoders)) (result : RolloutReconstruction) : Prop where
  newest : result.referenceContextItem = (turnsLeft turns result).getLast?.map ContextTurn.context
  nothingNewer :
    result.history <+: recorded env policy
        (responseItems (contextTurnItems (turnsLeft turns result)))

/--
The oldest rolled-back turn recorded only contextual messages before its first
boundary message, and none if no turn is kept.
-/
def LeadTrimmed (env : HistoryEnvironment) (policy : TruncationPolicy)
    (turns : List (ContextTurn env.decoders)) (markers : List UInt32) : Prop :=
  rolledBack markers = 0 ∨ ∀ item ∈ leadOf env policy turns markers,
    keptTurns turns markers ≠ [] ∧ isContextualMessage env.decoders item = true

theorem survivingHistory_isPrefix_iff (turns : List (ContextTurn env.decoders)) :
    survivingHistory env policy turns markers <+:
        recorded env policy (responseItems (contextTurnItems (keptTurns turns markers))) ↔
      LeadTrimmed env policy turns markers := by
  unfold survivingHistory LeadTrimmed
  dsimp only
  split
  next none => simp [none]
  next some =>
    rw [or_iff_right some]
    split
    next empty =>
      rw [List.isEmpty_iff.mp empty]
      simp [eq_nil_iff_forall_not_mem, contextTurnItems, turnItems, recorded, responseItems]
    next present =>
      rw [List.isEmpty_iff] at present
      simp only [ne_eq, present, not_false_eq_true, true_and]
      exact append_rdropWhile_isPrefix_iff _ _ _

omit markers in
theorem isPrefix_eq_of_getLast? {front shorter whole : List (ContextTurn decoders)}
    (distinct : (whole.map ContextTurn.context).Nodup) (isFront : front <+: whole)
    (isShorter : shorter <+: front)
    (same : shorter.getLast?.map ContextTurn.context = front.getLast?.map ContextTurn.context) :
    shorter = front := by
  obtain ⟨more, rfl⟩ := isShorter
  obtain ⟨rest, rfl⟩ := isFront
  rcases eq_nil_or_concat' more with rfl | ⟨others, newest, rfl⟩
  · exact (append_nil _).symm
  rcases eq_nil_or_concat' shorter with rfl | ⟨older, last, rfl⟩
  · simp at same
  · simp [nodup_append] at same distinct
    grind

/--
After any sequence of rollbacks the history is a front of the recorded turns
and the baseline is the context of the newest kept turn.  The turns with a
boundary left in the history are the kept turns exactly when the rolled-back
turns hold no more boundaries than the markers count, and then nothing of a
newer turn remains but what its lead recorded.  So the two are in sync where
that holds and the lead is trimmed, and nowhere else if no two turns have the
same context.
-/
theorem rollback_in_sync_iff (env : HistoryEnvironment) (policy : TruncationPolicy)
    (turns : List (ContextTurn env.decoders))
    (markers : List UInt32)
    (addressable : turns.length ≤ usizeMax) :
    let result := reconstructHistoryFromRollout env policy
      (rolledBackRollout turns markers)
    result.history <+: recorded env policy (responseItems (contextTurnItems turns)) ∧
      result.referenceContextItem = (keptTurns turns markers).getLast?.map ContextTurn.context ∧
      (turnsLeft turns result = keptTurns turns markers ↔
        droppedBoundaries turns markers ≤ rolledBack markers) ∧
      (droppedBoundaries turns markers ≤ rolledBack markers →
        result.history = survivingHistory env policy turns markers) ∧
      (droppedBoundaries turns markers ≤ rolledBack markers ∧ LeadTrimmed env policy turns markers →
        InSync env policy turns result) ∧
      ((turns.map ContextTurn.context).Nodup → InSync env policy turns result →
        droppedBoundaries turns markers ≤ rolledBack markers ∧
          LeadTrimmed env policy turns markers) := by
  intro result
  obtain ⟨reference, history⟩ := reconstructHistory_rolledBack
    env policy markers addressable
  have left : turnsLeft turns result = keptTurns turns markers ↔
      droppedBoundaries turns markers ≤ rolledBack markers := by
    rw [turnsLeft, history, cutHistory,
      countP_dropMarked _ _ (isUserTurnBoundary_of_contextual env.decoders), countP_recorded,
      countP_contextTurnItems]
    exact turnsInHistory_eq_keptTurns_iff turns markers
  have surviving : droppedBoundaries turns markers ≤ rolledBack markers →
      result.history = survivingHistory env policy turns markers := fun covered =>
    history.trans (dropMarked_eq_survivingHistory env policy covered)
  refine ⟨?_, reference, left, surviving, ?_, ?_⟩
  · rw [history]
    exact dropMarked_isPrefix _ _ _ _
  · rintro ⟨covered, trimmed⟩
    refine ⟨?_, ?_⟩
    · rw [left.mpr covered, reference]
    · rw [left.mpr covered, surviving covered, survivingHistory_isPrefix_iff]
      exact trimmed
  · intro distinct synced
    have kept : keptTurns turns markers <+: turns := take_prefix _ _
    have found : turnsLeft turns result <+: turns := coveringFront_isPrefix _ _ _
    have same := synced.newest.symm.trans reference
    have covered : droppedBoundaries turns markers ≤ rolledBack markers := by
      refine left.mp ?_
      rcases prefix_or_prefix_of_prefix found kept with above | below
      · exact isPrefix_eq_of_getLast? distinct kept above same
      · exact (isPrefix_eq_of_getLast? distinct found below same.symm).symm
    refine ⟨covered, ?_⟩
    rw [← survivingHistory_isPrefix_iff, ← surviving covered, ← left.mpr covered]
    exact synced.nothingNewer

def singleTurn : ContextTurn plainEnvironment.decoders where
  turnId := "a"
  body := [.turnContext ⟨some "a", "m", none, .null⟩, .responseItem (.inputMessage "user" "hi")]
  interior := by decide
  earlier := []
  context := ⟨some "a", "m", none, .null⟩
  later := [.responseItem (.inputMessage "user" "hi")]
  layout := rfl
  earlierPlain := by decide
  laterPlain := by decide
  owned := by decide
  instructed := by decide +kernel

def steeredTurn : ContextTurn plainEnvironment.decoders where
  turnId := "b"
  body := [.turnContext ⟨some "b", "m", none, .null⟩, .responseItem (.inputMessage "user" "do"),
      .responseItem (.inputMessage "user" "so")]
  interior := by decide
  earlier := []
  context := ⟨some "b", "m", none, .null⟩
  later := [.responseItem (.inputMessage "user" "do"), .responseItem (.inputMessage "user" "so")]
  layout := rfl
  earlierPlain := by decide
  laterPlain := by decide
  owned := by decide
  instructed := by decide +kernel

/-- A rolled-back turn with one message leaves the steered turn before it in sync. -/
theorem rollback_in_sync_two_turns :
    let result := reconstructHistoryFromRollout plainEnvironment (.bytes 100)
      (rolledBackRollout [steeredTurn, singleTurn] [1])
    result.referenceContextItem = some steeredTurn.context ∧
      InSync plainEnvironment (.bytes 100) [steeredTurn, singleTurn] result := by
  obtain ⟨-, reference, -, -, synced, -⟩ := rollback_in_sync_iff plainEnvironment (.bytes 100)
    [steeredTurn, singleTurn] [1] (by decide)
  refine ⟨reference, synced ⟨by decide +kernel, .inr ?_⟩⟩
  have none : leadOf plainEnvironment (.bytes 100) [steeredTurn, singleTurn] [1] = [] := by
    decide +kernel
  simp [none]

/--
Rolling back a steered turn leaves its first message in the history, while
the baseline is already the one of the turn before.
-/
theorem rollback_of_steered_turn_out_of_sync :
    let result := reconstructHistoryFromRollout plainEnvironment
      (.bytes 100) (rolledBackRollout [singleTurn, steeredTurn] [1])
    result.history = [.inputMessage "user" "hi", .inputMessage "user" "do"] ∧
      result.referenceContextItem = some singleTurn.context ∧
      (turnsInHistory [singleTurn, steeredTurn] (result.history.countP (isUserTurnBoundary
          plainEnvironment.decoders))).getLast?.map
            ContextTurn.context = some steeredTurn.context := by
  decide +kernel

end Codex.Session.RollbackSync
