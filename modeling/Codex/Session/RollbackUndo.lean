import Codex.Session.TurnReplay

/-!
# Rolling back the newest turns of a rollout

A rollback marker that counts exactly the newest turns of a rollout restores
the resume metadata of the rollout before those turns.  The history is
restored up to contextual messages: those at the end of the older history are
trimmed with the turns, and without any older turn boundary the contextual
messages that lead the first rolled-back turn stay.
-/

namespace Codex.Session.RollbackUndo

open Rust.Text Protocol.Models Context.ContextualFragments List
  Context.TextTruncation Context.ContextHistory Library.MarkedCuts
  Reconstruction SuffixAgreement TurnReplay ReplayState

/-! ## The reverse pass ignores what was accounted for -/

/-- The state of a replay whose rollout goes on with `extra`. -/
def extend (extra : List RolloutItem) (state : ReplayState) : ReplayState :=
  { state with rolloutSuffix := state.rolloutSuffix ++ extra }

/-! ## Turns with one instruction -/

/--
A complete turn whose response items are contextual messages, one instruction
message and whatever the model answered.  It may have been compacted, with
the replacement history on record.
-/
structure InstructionTurn (decoders : FragmentDecoders) where
  turnId : String
  body : List RolloutItem
  interior : ∀ item ∈ body, isTurnItem item = true
  leading : List ResponseItem
  instruction : ResponseItem
  following : List ResponseItem
  responses : responseItems body = leading ++ instruction :: following
  contextual : ∀ item ∈ leading, isContextualMessage decoders item = true
  boundary : isUserTurnBoundary decoders instruction = true
  single : ∀ item ∈ following, isUserTurnBoundary decoders item = false

namespace InstructionTurn

variable {decoders : FragmentDecoders}

def items (turn : InstructionTurn decoders) : List RolloutItem :=
  .eventMsg (.turnStarted turn.turnId) :: (turn.body ++ [.eventMsg (.turnComplete turn.turnId)])

variable (turn : InstructionTurn decoders)

@[simp]
theorem responseItems_items : responseItems turn.items = responseItems turn.body := by
  simp [items, responseItems]

/-- The segment that the reverse pass builds for the turn. -/
def segment (turn : InstructionTurn decoders) : ActiveReplaySegment :=
  turn.body.reverse.foldl (observe decoders) { turnId := some turn.turnId }

theorem segment_turnId : turn.segment.turnId = some turn.turnId :=
  foldl_observe_turnId decoders _ _ rfl

theorem segment_counts : turn.segment.countsAsUserTurn = true := by
  have mem : turn.instruction ∈ responseItems turn.body := by simp [turn.responses]
  exact foldl_observe_counts decoders _ (Or.inr
    ⟨turn.instruction, by simpa using mem_of_mem_responseItems mem, turn.boundary⟩)

def uncompacted (turn : InstructionTurn decoders) : Bool := turn.body.all isTurnInterior

theorem countP_responses : (responseItems turn.body).countP (isUserTurnBoundary decoders) = 1 := by
  have noLeading : turn.leading.countP (isUserTurnBoundary decoders) = 0 := by
    rw [countP_eq_zero]
    intro item mem
    simp [isUserTurnBoundary_of_contextual decoders item (turn.contextual item mem)]
  have noFollowing : turn.following.countP (isUserTurnBoundary decoders) = 0 := by
    rw [countP_eq_zero]
    intro item mem
    simp [turn.single item mem]
  rw [turn.responses, countP_append, noLeading, countP_cons_of_pos turn.boundary, noFollowing]

end InstructionTurn

def undoneItems {decoders : FragmentDecoders}
    (turns : List (InstructionTurn decoders)) : List RolloutItem :=
  turns.flatMap InstructionTurn.items

variable {decoders : FragmentDecoders}

@[simp]
theorem undoneItems_cons (turn : InstructionTurn decoders)
    (turns : List (InstructionTurn decoders)) :
    undoneItems (turn :: turns) = turn.items ++ undoneItems turns :=
  flatMap_cons

variable (turns : List (InstructionTurn decoders))

theorem countP_undoneItems :
    (responseItems (undoneItems turns)).countP (isUserTurnBoundary decoders) = turns.length := by
  induction turns with
  | nil => rfl
  | cons turn turns ih => simp [ih, turn.countP_responses, Nat.add_comm]

theorem exists_completeTurns (uncompacted : ∀ turn ∈ turns, turn.uncompacted = true) :
    ∃ complete : List CompleteTurn, turnItems complete = undoneItems turns ∧
        complete.length = turns.length ∧
        ∀ turn ∈ complete, (turn.segment decoders).countsAsUserTurn = true := by
  induction turns with
  | nil => exact ⟨[], rfl, rfl, by simp⟩
  | cons turn turns ih =>
    obtain ⟨complete, items, length, counted⟩ := ih (forall_mem_cons.mp uncompacted).2
    have interior : ∀ item ∈ turn.body, isTurnInterior item = true :=
      all_eq_true.mp (uncompacted turn (by simp))
    refine ⟨⟨turn.turnId, turn.body, interior⟩ :: complete, ?_, ?_, ?_⟩
    · rw [turnItems_cons, items, undoneItems_cons]
      rfl
    · simp [length]
    · intro other mem
      rcases mem_cons.mp mem with rfl | later
      · exact turn.segment_counts
      · exact counted other later

/-! ## Pending rollbacks skip turns -/

theorem scanItem_marker (decoders : FragmentDecoders) (rollout : List RolloutItem)
    (numTurns : UInt32) (pending : Nat) (exact : numTurns.toNat = pending) :
    scanItem decoders [] (initial rollout) (.eventMsg (.threadRolledBack numTurns)) =
      { initial rollout with
        pendingRollbackTurns := pending } := by
  have bound := numTurns.toNat_lt
  have fits : min (0 + numTurns.toNat) usizeMax = pending := by
    simp only [usizeMax]
    omega
  simp only [scanItem, saturatingAdd]
  rw [← fits]
  rfl

theorem reverseReplay_undone {decoders : FragmentDecoders} (older : List RolloutItem)
    {turns : List CompleteTurn} {numTurns : UInt32}
    (counted : ∀ turn ∈ turns, (turn.segment decoders).countsAsUserTurn = true)
    (exact : numTurns.toNat = turns.length) :
    let marker := RolloutItem.eventMsg (.threadRolledBack numTurns)
    reverseReplay decoders (older ++ turnItems turns ++ [marker]) =
      extend (turnItems turns ++ [marker]) (reverseReplay decoders older) := by
  intro marker
  set rollout := older ++ turnItems turns ++ [marker] with rolloutEq
  have reversed : rollout.reverse = marker :: ((turnItems turns).reverse ++ older.reverse) := by
    simp [rolloutEq]
  have marked := scanItem_marker decoders rollout numTurns turns.length exact
  have skipped : finalizeTurns decoders turns { initial rollout with
            pendingRollbackTurns := turns.length } =
        extend (turnItems turns ++ [marker]) (initial older) := by
    rw [finalizeTurns_of_pending decoders turns _ counted le_rfl]
    simp [initial, extend, rolloutEq]
  have start : Agree (fun suffix longer => longer = suffix ++ (turnItems turns ++ [marker]))
      (initial older) (extend (turnItems turns ++ [marker]) (initial older)) := ⟨_, rfl, rfl⟩
  obtain ⟨_, same, rfl⟩ := (start.reverseScan decoders older.reverse []
    (turnItems turns ++ [marker])
    fun visited => by simp).finish
  unfold reverseReplay
  rw [reversed, reverseScan_cons_of_no_base decoders marker _ _ _ _ marked rfl,
    reverseScan_turns decoders turns older.reverse _ rfl rfl, skipped]
  exact same

/-! ## Compacted turns that are rolled back -/

theorem modern_rollback {older : List RolloutItem}
    (turns : List (InstructionTurn decoders)) (numTurns : UInt32)
    (modern : ∀ item ∈ older, isLegacyCompaction item = false) :
    ∀ item ∈ older ++ undoneItems turns ++ [.eventMsg (.threadRolledBack numTurns)],
      isLegacyCompaction item = false := by
  intro item mem
  simp only [mem_append, mem_singleton, or_assoc] at mem
  rcases mem with inOlder | inTurns | rfl
  · exact modern item inOlder
  · obtain ⟨turn, _, inTurn⟩ := mem_flatMap.mp inTurns
    simp only [InstructionTurn.items, mem_cons, mem_append, not_mem_nil, or_false] at inTurn
    rcases inTurn with rfl | inBody | rfl
    · rfl
    · exact isLegacyCompaction_of_isTurnItem (turn.interior item inBody)
    · rfl
  · rfl

theorem scanCompacted_observe (newer : List RolloutItem) (state : ReplayState)
    (active : ActiveReplaySegment) {compacted : CompactedItem}
    (onRecord : compacted.replacementHistory.isSome = true) :
    AgreeButSuffix (state.withSegment (observeCompacted active compacted))
      (scanCompacted newer (state.withSegment active) compacted) := by
  obtain ⟨replacement, found⟩ := Option.isSome_iff_exists.mp onRecord
  cases base : active.baseReplacementHistory with
  | none =>
    refine ⟨newer, ?_⟩
    simp [scanCompacted, observeCompacted, found, base, withSegment, ReplayState.segment]
  | some held =>
    have unchanged : observeCompacted active compacted = active.clearBaseline := by
      rw [observeCompacted, base, Option.some_or, ← base, ← active.clearBaseline_base]
    refine ⟨state.rolloutSuffix, ?_⟩
    simp [scanCompacted, unchanged, found, base, withSegment, ReplayState.segment]

theorem scanItem_observe (decoders : FragmentDecoders) (newer : List RolloutItem)
    (state : ReplayState) {active : ActiveReplaySegment} {item : RolloutItem} {turnId : String}
    (identified : active.turnId = some turnId) (inTurn : isTurnItem item = true) :
    AgreeButSuffix (state.withSegment (observe decoders active item))
      (scanItem decoders newer (state.withSegment active) item) := by
  by_cases interior : isTurnInterior item = true
  · rw [scanItem_interior decoders newer state identified interior]
    exact AgreeButSuffix.refl _
  cases item with
  | compacted compacted => exact scanCompacted_observe newer state active inTurn
  | _ => exact absurd inTurn interior

/-- The loop visits all items of a turn before it looks at older ones. -/
theorem reverseScan_observe (decoders : FragmentDecoders) (visited older newer : List RolloutItem)
    {state : ReplayState} (active : ActiveReplaySegment) {turnId : String}
    (noBase : state.baseReplacementHistory = none) (identified : active.turnId = some turnId)
    (inTurn : ∀ item ∈ visited, isTurnItem item = true) :
    AgreeButSuffix (reverseScan decoders older []
        (state.withSegment (visited.foldl (observe decoders) active)))
      (reverseScan decoders (visited ++ older) newer (state.withSegment active)) := by
  induction visited generalizing newer active with
  | nil => exact (AgreeButSuffix.refl _).reverseScan decoders older _ _
  | cons item visited ih =>
    have step := scanItem_observe decoders newer state identified (inTurn item (by simp))
    have rest := ih [] (observe decoders active item) (observe_turnId decoders item identified)
      (forall_mem_cons.mp inTurn).2
    rw [cons_append, reverseScan_cons_of_no_base decoders item _
      newer _ _ rfl (step.base_eq.trans noBase)]
    exact rest.trans (step.reverseScan decoders _ [] _)

/-- A turn that counts uses up one pending rollback and nothing else. -/
theorem reverseScan_skipped_turn (turn : InstructionTurn decoders)
    (older newer : List RolloutItem) (state : ReplayState)
    (noBase : state.baseReplacementHistory = none) (closed : state.activeSegment = none)
    (pending : 0 < state.pendingRollbackTurns) :
    AgreeButSuffix (reverseScan decoders older [] { state with
          pendingRollbackTurns := state.pendingRollbackTurns - 1 })
      (reverseScan decoders (turn.items.reverse ++ older) newer state) := by
  have opened : scanItem decoders newer state (.eventMsg (.turnComplete turn.turnId)) =
      state.withSegment { turnId := some turn.turnId } := by
    simp [scanItem, ReplayState.segment, closed]
  have started : scanItem decoders [] (state.withSegment turn.segment)
        (.eventMsg (.turnStarted turn.turnId)) =
      { state with
        pendingRollbackTurns := state.pendingRollbackTurns - 1 } := by
    simp [scanItem, scanTurnStarted, withSegment, turnIdsAreCompatible, turn.segment_turnId,
      finalizeActiveSegment, pending, turn.segment_counts,
      closed]
  have body := reverseScan_observe decoders turn.body.reverse
    (.eventMsg (.turnStarted turn.turnId) :: older)
    (.eventMsg (.turnComplete turn.turnId) :: newer)
    { turnId := some turn.turnId } noBase rfl
    (by simpa using turn.interior)
  rw [← InstructionTurn.segment, reverseScan_cons_of_no_base decoders _
    older _ _ _ started noBase] at body
  have layout : turn.items.reverse ++ older = .eventMsg (.turnComplete turn.turnId) ::
        (turn.body.reverse ++ .eventMsg (.turnStarted turn.turnId) :: older) := by
    simp [InstructionTurn.items]
  rw [layout, reverseScan_cons_of_no_base decoders _ _ newer state _ opened noBase]
  exact ((AgreeButSuffix.refl _).reverseScan decoders older _ _).trans body

theorem reverseScan_skipped (older newer : List RolloutItem) (state : ReplayState)
    (noBase : state.baseReplacementHistory = none) (closed : state.activeSegment = none)
    (enough : turns.length ≤ state.pendingRollbackTurns) :
    AgreeButSuffix (reverseScan decoders older [] { state with
          pendingRollbackTurns := state.pendingRollbackTurns - turns.length })
      (reverseScan decoders ((undoneItems turns).reverse ++ older) newer state) := by
  induction turns generalizing older with
  | nil => exact (AgreeButSuffix.refl _).reverseScan decoders older _ _
  | cons turn turns ih =>
    simp only [length_cons] at enough
    have rest := ih (turn.items.reverse ++ older) (by omega)
    have here := reverseScan_skipped_turn turn older [] { state with
        pendingRollbackTurns := state.pendingRollbackTurns - turns.length }
      noBase closed (by simp only; omega)
    rw [undoneItems_cons, reverse_append, append_assoc]
    simpa [Nat.sub_sub] using here.trans rest

/--
The reverse pass skips the turns that the marker counts, compacted or not:
it finds what it finds without them, up to the selected suffix.
-/
theorem reverseReplay_skipped (older : List RolloutItem)
    (turns : List (InstructionTurn decoders)) (numTurns : UInt32)
    (exact : numTurns.toNat = turns.length) :
    AgreeButSuffix (reverseReplay decoders older)
      (reverseReplay decoders (older ++ undoneItems turns ++
        [.eventMsg (.threadRolledBack numTurns)])) := by
  set marker := RolloutItem.eventMsg (.threadRolledBack numTurns)
  set rollout := older ++ undoneItems turns ++ [marker] with rolloutEq
  have reversed : rollout.reverse = marker :: ((undoneItems turns).reverse ++ older.reverse) := by
    simp [rolloutEq]
  have marked := scanItem_marker decoders rollout numTurns turns.length exact
  have skipped := reverseScan_skipped turns older.reverse [marker]
    { initial rollout with
      pendingRollbackTurns := turns.length } rfl rfl le_rfl
  rw [← reverseScan_cons_of_no_base decoders marker _ [] _ _ marked rfl, ← reversed] at skipped
  have start : AgreeButSuffix (initial older) { initial rollout with
        pendingRollbackTurns := turns.length - turns.length } :=
    ⟨rollout, by simp [initial]⟩
  exact agree_true_iff.mp (agree_true_iff.mpr
    ((start.reverseScan decoders older.reverse [] []).trans skipped)).finish

/-! ## The history after a rollback -/

theorem materialize_undone (env : HistoryEnvironment) (policy : TruncationPolicy)
    (base : Option (List ResponseItem)) (suffix : List RolloutItem)
    (turns : List CompleteTurn) (numTurns : UInt32) :
    let before := materialize env policy base suffix
    let after := materialize env policy base (suffix ++ (turnItems turns ++
        [RolloutItem.eventMsg (.threadRolledBack numTurns)]))
    after.sawLegacyCompaction = before.sawLegacyCompaction ∧ after.history.items =
        dropMarked (isUserTurnBoundary env.decoders)
          (isContextualMessage env.decoders) numTurns.toNat
          (before.history.items ++ recorded env policy (responseItems (turnItems turns))) := by
  intro before after
  have replayed : after = materializeItem env policy { before with
          history := before.history.recordItems env policy (responseItems (turnItems turns)) }
        (.eventMsg (.threadRolledBack numTurns)) := by
    simp only [after, before, materialize, foldl_append]
    rw [foldl_materializeItem_turns]
    rfl
  rw [replayed]
  refine ⟨rfl, ?_⟩
  simp only [materializeItem, dropLastNUserTurns_items]
  rfl

/--
Cutting the recorded instruction turns off a history leaves the history with
its trailing contextual messages trimmed, or, when it has no boundary of its
own, with the contextual messages of the first turn.
-/
theorem dropMarked_undone (env : HistoryEnvironment) (policy : TruncationPolicy)
    (history : List ResponseItem) (first : InstructionTurn env.decoders)
    (rest : List (InstructionTurn env.decoders)) :
    dropMarked (isUserTurnBoundary env.decoders)
        (isContextualMessage env.decoders) (rest.length + 1)
        (history ++ recorded env policy (responseItems (undoneItems (first :: rest)))) =
      if history.any (isUserTurnBoundary env.decoders) then
        history.rdropWhile (isContextualMessage env.decoders)
      else history ++ first.leading := by
  set boundary := isUserTurnBoundary env.decoders
  set turns := recorded env policy (responseItems (undoneItems (first :: rest))) with turnsEq
  have count : turns.countP boundary = rest.length + 1 := by
    rw [turnsEq, countP_recorded, countP_undoneItems, length_cons]
  have leads : beforeMark boundary 0 turns = first.leading := by
    have split : turns = first.leading ++ processItem env policy
          first.instruction :: recorded env policy
            (first.following ++ responseItems (undoneItems rest)) := by
      have here : recorded env policy (first.instruction ::
            (first.following ++ responseItems (undoneItems rest))) =
          processItem env policy first.instruction :: recorded env policy
              (first.following ++ responseItems (undoneItems rest)) := by
        simp [recorded, isApiMessage_of_boundary env.decoders first.boundary]
      rw [turnsEq, ← here, ← recorded_of_contextual env policy
        first.leading first.contextual, ← recorded_append]
      simp [undoneItems, first.responses, recorded_of_contextual
        env policy first.leading first.contextual]
    have unmarked : first.leading.countP boundary = 0 := by
      rw [countP_eq_zero]
      intro item mem
      simp [boundary, isUserTurnBoundary_of_contextual
        env.decoders item (first.contextual item mem)]
    rw [split, beforeMark_append boundary 0 _ _ (by omega)]
    simp [beforeMark, boundary, first.boundary]
  by_cases hasBoundary : history.any boundary = true
  · have positive : 0 < history.countP boundary := by
      rw [countP_pos_iff]
      simpa using hasBoundary
    rw [if_pos hasBoundary, dropMarked_of_lt _ _ _ _ (by omega) (by rw [countP_append]; omega),
      countP_append, count, Nat.add_sub_cancel,
      beforeMark_append boundary _ _ _ le_rfl, Nat.sub_self, leads]
    exact rdropWhile_append_of_all _ history first.contextual
  · have none : history.countP boundary = 0 := by
      rw [countP_eq_zero]
      simpa using hasBoundary
    rw [if_neg hasBoundary, dropMarked_of_le _ _ _ _ (by omega) (by rw [countP_append]; omega),
      beforeMark_append boundary 0 _ _ (by omega), Nat.zero_sub, leads]

theorem reconstructHistory_uncompacted
    {env : HistoryEnvironment} (policy : TruncationPolicy) (older : List RolloutItem)
    (first : InstructionTurn env.decoders)
    {rest : List (InstructionTurn env.decoders)} {numTurns : UInt32}
    (counted : numTurns.toNat = rest.length + 1)
    (uncompacted : ∀ turn ∈ first :: rest, turn.uncompacted = true) :
    let before := reconstructHistoryFromRollout env policy older
    let after := reconstructHistoryFromRollout env policy
      (older ++ undoneItems (first :: rest) ++ [.eventMsg (.threadRolledBack numTurns)])
    after.referenceContextItem = before.referenceContextItem ∧ after.history = if before.history.any
            (isUserTurnBoundary env.decoders) then
          before.history.rdropWhile (isContextualMessage env.decoders)
        else before.history ++ first.leading := by
  intro before after
  obtain ⟨turns, itemsEq, length, counts⟩ := exists_completeTurns (first :: rest) uncompacted
  have replay := reverseReplay_undone older counts (by simpa [length] using counted)
  obtain ⟨flag, items⟩ := materialize_undone env policy
    (reverseReplay env.decoders older).baseReplacementHistory
    (reverseReplay env.decoders older).rolloutSuffix
    turns numTurns
  simp only [after, before, reconstructHistoryFromRollout, ← itemsEq, replay]
  constructor
  · simp only [extend, flag]
  · simp only [extend, items, counted]
    rw [itemsEq]
    exact dropMarked_undone env policy _ first rest

/--
Rolling back exactly the newest instruction turns restores the metadata of
the older rollout, also when the turns were compacted, and without
compactions in the turns its history up to contextual messages.
-/
theorem reconstructHistory_rollback (env : HistoryEnvironment) (policy : TruncationPolicy)
    (older : List RolloutItem)
    (first : InstructionTurn env.decoders)
    (rest : List (InstructionTurn env.decoders))
    (numTurns : UInt32)
    (counted : numTurns.toNat = rest.length + 1) :
    let before := reconstructHistoryFromRollout env policy older
    let after := reconstructHistoryFromRollout env policy
      (older ++ undoneItems (first :: rest) ++ [.eventMsg (.threadRolledBack numTurns)])
    after.previousTurnSettings = before.previousTurnSettings ∧
      ((∀ item ∈ older, isLegacyCompaction item = false) →
        after.referenceContextItem = before.referenceContextItem) ∧
      ((∀ turn ∈ first :: rest, turn.uncompacted = true) →
        after.referenceContextItem = before.referenceContextItem ∧ after.history =
            if before.history.any
                (isUserTurnBoundary env.decoders) then
              before.history.rdropWhile (isContextualMessage env.decoders)
            else before.history ++ first.leading) := by
  intro before after
  have skipped := reverseReplay_skipped older (first :: rest) numTurns (by simpa using counted)
  refine ⟨skipped.settings_eq, ?_, ?_⟩
  · intro modern
    rw [referenceContextItem_of_modern env policy _
        (modern_rollback (first :: rest) numTurns modern),
      referenceContextItem_of_modern env policy older modern,
      skipped.reference_eq]
  · exact reconstructHistory_uncompacted policy older first counted

def skillTurn : CompleteTurn where
  turnId := "turn-1"
  body := [.turnContext ⟨some "turn-1", "model-a", none, .null⟩,
      .responseItem (.inputMessage "user" "hi"),
      .responseItem (.inputMessage "user" "<skill>lint</skill>")]
  interior := by decide

/-- A turn that starts with the text of an injected skill. -/
def questionTurn : InstructionTurn plainEnvironment.decoders where
  turnId := "turn-2"
  body := [.responseItem (.inputMessage "user" "<skill>test</skill>"),
      .turnContext ⟨some "turn-2", "model-b", none, .null⟩,
      .responseItem (.inputMessage "user" "go")]
  interior := by decide
  leading := [.inputMessage "user" "<skill>test</skill>"]
  instruction := .inputMessage "user" "go"
  following := []
  responses := by decide
  contextual := by decide +kernel
  boundary := by decide +kernel
  single := by decide

def compactedTurn : InstructionTurn plainEnvironment.decoders where
  turnId := "turn-2"
  body := [.responseItem (.inputMessage "user" "go"),
      .compacted ⟨"", some [.inputMessage "user" "summary"]⟩]
  interior := by decide
  leading := []
  instruction := .inputMessage "user" "go"
  following := []
  responses := by decide
  contextual := by decide
  boundary := by decide +kernel
  single := by decide

/--
Rolling back a question leaves the older message, and rolling back a compacted
turn restores the baseline of the turn before it.
-/
theorem reconstructHistory_rollback_question :
    (reconstructHistoryFromRollout plainEnvironment (.bytes 100)
        (skillTurn.items ++ undoneItems [questionTurn] ++
          [.eventMsg (.threadRolledBack 1)])).history =
      [.inputMessage "user" "hi"] ∧
    (reconstructHistoryFromRollout plainEnvironment (.bytes 100)
        (skillTurn.items ++ undoneItems [compactedTurn] ++
          [.eventMsg (.threadRolledBack 1)])).referenceContextItem =
      some ⟨some "turn-1", "model-a", none, .null⟩ := by
  obtain ⟨_, _, uncompacted⟩ := reconstructHistory_rollback
    plainEnvironment (.bytes 100) skillTurn.items questionTurn [] 1 rfl
  obtain ⟨_, modern, _⟩ := reconstructHistory_rollback
    plainEnvironment (.bytes 100) skillTurn.items compactedTurn [] 1 rfl
  constructor
  · rw [(uncompacted (by decide)).2]
    decide +kernel
  · rw [modern (by decide)]
    decide +kernel

/--
A rollback does not always restore the history: a skill text at the end of the
turn before is trimmed with the rolled-back turn, and a compaction inside the
rolled-back turn makes the whole older history disappear.
-/
theorem rollback_loses_older_items : (reconstructHistoryFromRollout plainEnvironment (.bytes 100)
        (skillTurn.items ++ undoneItems [questionTurn] ++
          [.eventMsg (.threadRolledBack 1)])).history ≠
      (reconstructHistoryFromRollout plainEnvironment (.bytes 100) skillTurn.items).history ∧
    (reconstructHistoryFromRollout plainEnvironment (.bytes 100)
        (skillTurn.items ++ undoneItems [compactedTurn] ++
          [.eventMsg (.threadRolledBack 1)])).history = [] := by
  decide +kernel

end Codex.Session.RollbackUndo
