import Codex.Session.Reconstruction

/-!
# Lazy reverse replay computes the eager replay

Without rollback markers the history of a rollout has a simple meaning: fold
over all items, record each response item, and start over at each compaction.
This module states that fold and proves that the two-pass reconstruction
computes it for every order of the rollout items.
-/

namespace Codex.Session.EagerReplay

open Rust.Text Protocol.Models Context.ContextualFragments List
  Context.TextTruncation Context.ContextHistory Context.CompactedHistory
  Reconstruction ReplayState

variable (env : HistoryEnvironment) (policy : TruncationPolicy)

/-! ## The eager fold -/

def eagerStep (history : ContextManager) : RolloutItem → ContextManager
  | .responseItem item => history.recordItems env policy [item]
  | .compacted compacted =>
    match compacted.replacementHistory with
    | some replacementHistory => history.replace replacementHistory
    | none =>
      history.replace (buildCompactedHistory [] (collectUserMessages env.decoders history.items)
          compacted.message)
  | _ => history

def eagerReplay (rolloutItems : List RolloutItem) : ContextManager :=
  rolloutItems.foldl (eagerStep env policy) ContextManager.new

def isRollbackMarker : RolloutItem → Bool
  | .eventMsg (.threadRolledBack _) => true
  | _ => false

variable (env : HistoryEnvironment) (policy : TruncationPolicy)

theorem eagerStep_items_congr {left right : ContextManager} (item : RolloutItem)
    (same : left.items = right.items) :
    (eagerStep env policy left item).items = (eagerStep env policy right item).items := by
  cases item with
  | responseItem item => simp [eagerStep, ContextManager.recordItems, same]
  | compacted compacted =>
    cases replacement : compacted.replacementHistory <;>
      simp [eagerStep, replacement, same]
  | _ => simpa [eagerStep] using same

theorem eagerFold_items_congr (rolloutItems : List RolloutItem) (left right : ContextManager)
    (same : left.items = right.items) :
    (rolloutItems.foldl (eagerStep env policy) left).items =
      (rolloutItems.foldl (eagerStep env policy) right).items := by
  induction rolloutItems generalizing left right with
  | nil => exact same
  | cons item rest ih => exact ih _ _ (eagerStep_items_congr env policy item same)

/-- Without a marker the forward pass is the eager fold. -/
theorem foldl_materializeItem_history {rolloutItems : List RolloutItem}
    (unmarked : ∀ item ∈ rolloutItems, isRollbackMarker item = false)
    (state : MaterializedHistory) :
    (rolloutItems.foldl (materializeItem env policy) state).history =
      rolloutItems.foldl (eagerStep env policy)
        state.history := by
  induction rolloutItems generalizing state with
  | nil => rfl
  | cons item rest ih =>
    have restUnmarked : ∀ later ∈ rest, isRollbackMarker later = false :=
      (forall_mem_cons.mp unmarked).2
    have itemUnmarked := unmarked item (by simp)
    have step : (materializeItem env policy state item).history =
          eagerStep env policy state.history item := by
      cases item with
      | compacted compacted =>
        cases replacement : compacted.replacementHistory <;>
          simp [materializeItem, eagerStep, replacement]
      | eventMsg event =>
        cases event <;>
          simp_all [materializeItem, eagerStep, isRollbackMarker]
      | _ => simp [materializeItem, eagerStep]
    rw [foldl_cons, foldl_cons, ih restUnmarked, step]

/-! ## The newest checkpoint -/

def checkpointOf : RolloutItem → Option (List ResponseItem)
  | .compacted compacted => compacted.replacementHistory
  | _ => none

def newestCheckpoint : List RolloutItem → Option (List ResponseItem × List RolloutItem)
  | [] => none
  | item :: rest =>
    match newestCheckpoint rest with
    | some found => some found
    | none => (checkpointOf item).map fun replacement => (replacement, rest)

theorem newestCheckpoint_append (older newer : List RolloutItem)
    {found : List ResponseItem × List RolloutItem} (inNewer : newestCheckpoint newer = some found) :
    newestCheckpoint (older ++ newer) = some found := by
  induction older with
  | nil => exact inNewer
  | cons item rest ih => rw [cons_append, newestCheckpoint, ih]

variable {replacement : List ResponseItem}

theorem eagerFold_of_newestCheckpoint {rolloutItems tail : List RolloutItem}
    (found : newestCheckpoint rolloutItems = some (replacement, tail)) (history : ContextManager) :
    (rolloutItems.foldl (eagerStep env policy) history).items =
      (tail.foldl (eagerStep env policy) (ContextManager.new.replace replacement)).items := by
  induction rolloutItems generalizing history with
  | nil => simp [newestCheckpoint] at found
  | cons item rest ih =>
    rw [newestCheckpoint] at found
    cases later : newestCheckpoint rest with
    | some inRest =>
      rw [later] at found
      exact ih (later.trans found) _
    | none =>
      rw [later] at found
      obtain ⟨carried, carries, pair⟩ := Option.map_eq_some_iff.mp found
      obtain ⟨rfl, rfl⟩ := Prod.mk.inj pair
      rw [foldl_cons]
      apply eagerFold_items_congr
      cases item with
      | compacted compacted =>
        simp only [checkpointOf] at carries
        simp [eagerStep, carries]
      | _ => simp [checkpointOf] at carries

/-! ## What one visited item can change -/

/--
The replacement history that a replay state holds: the chosen base, or else
the one of the open segment.
-/
def heldBase (state : ReplayState) : Option (List ResponseItem) := state.baseReplacementHistory.or
    (state.activeSegment.bind ActiveReplaySegment.baseReplacementHistory)

variable (state : ReplayState)

theorem finalizeActiveSegment_base (active : ActiveReplaySegment)
    (noPending : state.pendingRollbackTurns = 0) :
    (state.finalizeActiveSegment active).baseReplacementHistory = state.baseReplacementHistory.or
        active.baseReplacementHistory := by
  cases base : state.baseReplacementHistory <;>
    simp [finalizeActiveSegment, noPending, base]

variable {segment : ActiveReplaySegment}

theorem heldBase_withSegment
    (same : segment.baseReplacementHistory = state.segment.baseReplacementHistory) :
    heldBase (state.withSegment segment) = heldBase state := by
  cases active : state.activeSegment <;>
    simp_all [heldBase, withSegment, ReplayState.segment]

theorem heldBase_eq : heldBase state =
    state.baseReplacementHistory.or state.segment.baseReplacementHistory := by
  cases active : state.activeSegment <;>
    simp [heldBase, ReplayState.segment, active]

/--
What an item that is neither a checkpoint nor a marker leaves: the suffix, and the held base
unless a rollback is pending and drops the open segment.
-/
def Holds (state next : ReplayState) : Prop :=
  next.rolloutSuffix = state.rolloutSuffix ∧
    next.pendingRollbackTurns ≤ state.pendingRollbackTurns ∧
    (heldBase next = heldBase state ∨
      0 < state.pendingRollbackTurns ∧ heldBase next = state.baseReplacementHistory)

theorem holds_refl : Holds state state := ⟨rfl, le_rfl, .inl rfl⟩

theorem holds_withSegment
    (same : segment.baseReplacementHistory = state.segment.baseReplacementHistory) :
    Holds state (state.withSegment segment) :=
  ⟨rfl, le_rfl, .inl (heldBase_withSegment state same)⟩

theorem holds_scanTurnStarted (turnId : String) : Holds state (scanTurnStarted state turnId) := by
  unfold scanTurnStarted
  cases active : state.activeSegment with
  | none => exact holds_refl state
  | some segment =>
    dsimp only
    split
    · refine ⟨by simp, ?_⟩
      by_cases pending : 0 < state.pendingRollbackTurns
      · cases counts : segment.countsAsUserTurn <;>
          simp [finalizeActiveSegment, pending, counts, heldBase]
      · rw [Nat.not_lt, Nat.le_zero] at pending
        have base := finalizeActiveSegment_base { state with activeSegment := none } segment pending
        exact ⟨by simp [finalizeActiveSegment, pending], .inl (by simp [heldBase, base, active])⟩
    · exact holds_refl state

variable (decoders : FragmentDecoders) {item : RolloutItem}

theorem holds_of_no_checkpoint (newer : List RolloutItem)
    (unmarked : isRollbackMarker item = false) (plain : checkpointOf item = none) :
    Holds state (scanItem decoders newer state item) := by
  cases item with
  | sessionMeta line => exact holds_refl state
  | responseItem item => exact holds_withSegment state rfl
  | compacted compacted =>
    simp only [checkpointOf] at plain
    simp only [scanItem, scanCompacted, plain]
    exact holds_withSegment state (by simp)
  | turnContext context => exact holds_withSegment state (by simp)
  | eventMsg event =>
    cases event with
    | turnStarted turnId => exact holds_scanTurnStarted state turnId
    | turnComplete | userMessage => exact holds_withSegment state rfl
    | turnAborted turnId =>
      simp only [scanItem, scanTurnAborted]
      cases active : state.activeSegment with
      | none =>
        cases turnId with
        | none => exact holds_refl state
        | some turnId => exact holds_withSegment state (by simp [ReplayState.segment, active])
      | some segment =>
        dsimp only
        split
        · exact holds_withSegment state (by simp [ReplayState.segment, active])
        · exact holds_refl state
    | threadRolledBack numTurns => cases unmarked
    | other tag payload => exact holds_refl state

/--
A checkpoint becomes the held base when none is held yet, and may move the
suffix in either case.
-/
theorem scanItem_of_checkpoint (decoders : FragmentDecoders) (newer : List RolloutItem)
    (state : ReplayState)
    (carries : checkpointOf item = some replacement) :
    let next := scanItem decoders newer state item
    next.pendingRollbackTurns = state.pendingRollbackTurns ∧
      heldBase next = (heldBase state).or (some replacement) ∧
      (next.rolloutSuffix = newer ∨ (next.rolloutSuffix = state.rolloutSuffix ∧
          heldBase state ≠ none)) := by
  cases item with
  | compacted compacted =>
    simp only [checkpointOf] at carries
    simp only [heldBase_eq state]
    cases held : state.segment.baseReplacementHistory with
    | none =>
      cases base : state.baseReplacementHistory <;>
        simp [scanItem, scanCompacted, carries, heldBase, base, held]
    | some old =>
      cases base : state.baseReplacementHistory <;>
        simp [scanItem, scanCompacted, withSegment, carries, heldBase, base, held]
  | _ => simp [checkpointOf] at carries

/-! ## The invariant of the reverse pass -/

/--
After the items `newer` of the rollout `all` were visited: if none of them is
a checkpoint, no base is held and the suffix is the whole rollout; otherwise
the newest one is held, and the suffix starts after it or contains it.
-/
structure ScanInvariant
    (all newer : List RolloutItem) (state : ReplayState) : Prop where
  noPending : state.pendingRollbackTurns = 0
  suffixOf : state.rolloutSuffix <:+ all
  unheld : newestCheckpoint newer = none → heldBase state = none ∧ state.rolloutSuffix = all
  held : ∀ replacement tail, newestCheckpoint newer = some (replacement, tail) →
      heldBase state = some replacement ∧ (state.rolloutSuffix = tail ∨
          newestCheckpoint state.rolloutSuffix = some (replacement, tail))

theorem scanInvariant_initial (all : List RolloutItem) : ScanInvariant all [] (initial all) where
  noPending := rfl
  suffixOf := suffix_refl all
  unheld := fun _ => ⟨rfl, rfl⟩
  held := by
    intro replacement tail found
    simp [newestCheckpoint] at found

theorem scanInvariant_step {all older newer : List RolloutItem}
    {state : ReplayState} (split : all = older ++ item :: newer)
    (unmarked : isRollbackMarker item = false) (invariant : ScanInvariant all newer state) :
    ScanInvariant all (item :: newer) (scanItem decoders newer state item) := by
  cases carries : checkpointOf item with
  | none =>
    obtain ⟨suffix, fewer, held⟩ := holds_of_no_checkpoint state decoders newer unmarked carries
    have base : heldBase (scanItem decoders newer state item) = heldBase state :=
      held.resolve_right fun pending => absurd invariant.noPending pending.1.ne'
    have same : newestCheckpoint (item :: newer) = newestCheckpoint newer := by
      cases later : newestCheckpoint newer <;>
        simp [newestCheckpoint, later, carries]
    exact
      { noPending := Nat.le_zero.mp (fewer.trans_eq invariant.noPending)
        suffixOf := suffix ▸ invariant.suffixOf
        unheld := by
          rw [same, base, suffix]
          exact invariant.unheld
        held := by
          rw [same, base, suffix]
          exact invariant.held }
  | some replacement =>
    obtain ⟨pending, base, moved⟩ := scanItem_of_checkpoint decoders
      newer state carries
    have suffixOf : (scanItem decoders newer state item).rolloutSuffix <:+ all := by
      rcases moved with moved | ⟨kept, _⟩
      · rw [moved, split]
        exact ⟨older ++ [item], by simp⟩
      · rw [kept]
        exact invariant.suffixOf
    cases later : newestCheckpoint newer with
    | none =>
      obtain ⟨unheld, _⟩ := invariant.unheld later
      have found : newestCheckpoint (item :: newer) = some (replacement, newer) := by
        simp [newestCheckpoint, later, carries]
      refine
        { noPending := pending.trans invariant.noPending
          suffixOf := suffixOf
          unheld := by simp [found]
          held := ?_ }
      intro carried tail foundAgain
      rw [found, Option.some.injEq, Prod.mk.injEq] at foundAgain
      obtain ⟨rfl, rfl⟩ := foundAgain
      refine ⟨by simp [base, unheld], Or.inl ?_⟩
      rcases moved with moved | ⟨_, wasHeld⟩
      · exact moved
      · exact absurd unheld wasHeld
    | some newest =>
      obtain ⟨carried, tail⟩ := newest
      obtain ⟨held, inSuffix⟩ := invariant.held carried tail later
      have found : newestCheckpoint (item :: newer) = some (carried, tail) := by
        simp [newestCheckpoint, later]
      refine
        { noPending := pending.trans invariant.noPending
          suffixOf := suffixOf
          unheld := by simp [found]
          held := ?_ }
      intro carriedAgain tailAgain foundAgain
      rw [found, Option.some.injEq, Prod.mk.injEq] at foundAgain
      obtain ⟨rfl, rfl⟩ := foundAgain
      refine ⟨by simp [base, held], ?_⟩
      rcases moved with moved | ⟨kept, _⟩
      · exact Or.inr (by rw [moved, later])
      · rw [kept]
        exact inSuffix

/--
The reverse loop keeps the invariant over whatever it visits before it runs
out of items or exits early.
-/
theorem reverseScan_invariant (all older newer : List RolloutItem) (state : ReplayState)
    (split : all = older.reverse ++ newer)
    (unmarked : ∀ item ∈ older, isRollbackMarker item = false)
    (invariant : ScanInvariant all newer state) :
    ∃ unvisited visited, all = unvisited ++ visited ∧ ScanInvariant all visited
        (reverseScan decoders older newer state) := by
  induction older generalizing newer state with
  | nil => exact ⟨[], newer, by simpa using split, invariant⟩
  | cons item older ih =>
    have olderUnmarked : ∀ later ∈ older, isRollbackMarker later = false :=
      (forall_mem_cons.mp unmarked).2
    have splitHere : all = older.reverse ++ item :: newer := by simpa using split
    have next := scanInvariant_step decoders splitHere (unmarked item (by simp)) invariant
    by_cases complete : (scanItem decoders newer state item).isComplete = true
    · simp only [reverseScan, complete, if_true]
      exact ⟨older.reverse, item :: newer, splitHere, next⟩
    · simp only [reverseScan, complete]
      exact ih (item :: newer) _ splitHere olderUnmarked next

/-! ## The two passes compute the eager replay -/

theorem reverseReplay_base {all : List RolloutItem} (noPending :
      (reverseScan decoders all.reverse [] (initial all)).pendingRollbackTurns = 0) :
    (reverseReplay decoders all).baseReplacementHistory =
        heldBase (reverseScan decoders all.reverse [] (initial all)) ∧
      (reverseReplay decoders all).rolloutSuffix = (reverseScan decoders all.reverse []
          (initial all)).rolloutSuffix := by
  unfold reverseReplay
  set state := reverseScan decoders all.reverse [] (initial all)
  cases active : state.activeSegment with
  | none => simp [heldBase, active]
  | some segment =>
    have base := finalizeActiveSegment_base { state with activeSegment := none } segment noPending
    simp only [active]
    exact ⟨by simp [base, heldBase, active], by simp⟩

/--
For every rollout without rollback markers, in any order of its items, the
reconstructed history is the eager replay of all items.
-/
theorem reconstructHistory_eq_eagerReplay
    (env : HistoryEnvironment) (policy : TruncationPolicy)
    (rolloutItems : List RolloutItem)
    (unmarked : ∀ item ∈ rolloutItems, isRollbackMarker item = false) :
    (reconstructHistoryFromRollout env policy rolloutItems).history =
      (eagerReplay env policy rolloutItems).items := by
  obtain ⟨unvisited, visited, split, invariant⟩ :=
    reverseScan_invariant env.decoders rolloutItems
      rolloutItems.reverse [] (initial rolloutItems)
      (by simp) (by simpa using unmarked)
      (scanInvariant_initial rolloutItems)
  obtain ⟨base, suffix⟩ := reverseReplay_base env.decoders invariant.noPending
  have suffixUnmarked : ∀ item ∈ (reverseReplay env.decoders rolloutItems).rolloutSuffix,
        isRollbackMarker item = false := by
    intro item mem
    rw [suffix] at mem
    exact unmarked item (invariant.suffixOf.subset mem)
  simp only [reconstructHistoryFromRollout, materialize]
  rw [foldl_materializeItem_history env policy suffixUnmarked, base, suffix]
  cases newest : newestCheckpoint visited with
  | none =>
    obtain ⟨unheld, whole⟩ := invariant.unheld newest
    rw [unheld, whole]
    rfl
  | some found =>
    obtain ⟨replacement, tail⟩ := found
    obtain ⟨held, inSuffix⟩ := invariant.held replacement tail newest
    have eager := eagerFold_of_newestCheckpoint env policy
      (split ▸ newestCheckpoint_append unvisited visited newest)
      ContextManager.new
    rw [held, eagerReplay, eager]
    rcases inSuffix with after | through
    · rw [after]
    · exact eagerFold_of_newestCheckpoint env policy through _

/-- A checkpoint between two messages replaces the first one. -/
theorem reconstructHistory_eq_eagerReplay_checkpoint :
    (reconstructHistoryFromRollout plainEnvironment (.bytes 100)
        [.responseItem (.inputMessage "user" "first question"),
          .compacted ⟨"", some [.inputMessage "user" "summary"]⟩,
          .eventMsg (.turnComplete "turn-1"),
          .responseItem (.inputMessage "user" "next")]).history =
      [.inputMessage "user" "summary", .inputMessage "user" "next"] := by
  rw [reconstructHistory_eq_eagerReplay plainEnvironment (.bytes 100) _ (by decide)]
  decide

end Codex.Session.EagerReplay
