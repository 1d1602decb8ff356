import Codex.Session.Reconstruction

/-!
# What does not depend on the selected suffix

The suffix that the reverse pass selects is only read by the forward pass.
Two reverse passes that start from states which differ in their suffix
therefore find the same base, the same metadata and the same segments.
-/

namespace Codex.Session.SuffixAgreement

open Protocol.Models Context.ContextualFragments Context.TextTruncation
  Context.ContextHistory Reconstruction

/-! ## Agreement up to related suffixes -/

/-- Two states that differ in their suffixes at most, which are related. -/
def Agree (related : List RolloutItem → List RolloutItem → Prop) (state other : ReplayState) :
    Prop :=
  ∃ suffix, other = { state with rolloutSuffix := suffix } ∧ related state.rolloutSuffix suffix

variable {newer newer' : List RolloutItem}

namespace Agree

variable {related : List RolloutItem → List RolloutItem → Prop} {state other : ReplayState}

theorem ite {condition : Prop} [Decidable condition] {state' other' : ReplayState}
    (whenTrue : Agree related state other) (whenFalse : Agree related state' other') :
    Agree related (if condition then state else state') (if condition then other else other') := by
  split
  · exact whenTrue
  · exact whenFalse

variable (agree : Agree related state other)
include agree

theorem withSegment (active : ActiveReplaySegment) :
    Agree related (state.withSegment active) (other.withSegment active) := by
  obtain ⟨suffix, rfl, fits⟩ := agree
  exact ⟨suffix, rfl, fits⟩

theorem finalizeActiveSegment (active : ActiveReplaySegment) :
    Agree related (state.finalizeActiveSegment active) (other.finalizeActiveSegment active) := by
  obtain ⟨suffix, rfl, fits⟩ := agree
  exact ite (ite ⟨suffix, rfl, fits⟩ ⟨suffix, rfl, fits⟩) ⟨suffix, rfl, fits⟩

theorem scanCompacted (selected : related newer newer') (compacted : CompactedItem) :
    Agree related (scanCompacted newer state compacted) (scanCompacted newer' other compacted) := by
  obtain ⟨suffix, rfl, fits⟩ := agree
  unfold Reconstruction.scanCompacted
  cases compacted.replacementHistory with
  | none => exact ⟨suffix, rfl, fits⟩
  | some replacement => exact ite ⟨newer', rfl, selected⟩ ⟨suffix, rfl, fits⟩

theorem activeSegment_eq : other.activeSegment = state.activeSegment := by
  obtain ⟨suffix, rfl, -⟩ := agree
  rfl

theorem closed :
    Agree related { state with activeSegment := none } { other with activeSegment := none } := by
  obtain ⟨suffix, rfl, fits⟩ := agree
  exact ⟨suffix, rfl, fits⟩

theorem scanTurnAborted (turnId : Option String) :
    Agree related (scanTurnAborted state turnId) (scanTurnAborted other turnId) := by
  simp only [Reconstruction.scanTurnAborted, agree.activeSegment_eq]
  cases state.activeSegment with
  | none =>
    cases turnId with
    | none => exact agree
    | some turnId => exact agree.withSegment _
  | some active => exact ite (agree.withSegment _) agree

theorem scanTurnStarted (turnId : String) :
    Agree related (scanTurnStarted state turnId) (scanTurnStarted other turnId) := by
  simp only [Reconstruction.scanTurnStarted, agree.activeSegment_eq]
  cases state.activeSegment with
  | none => exact agree
  | some active => exact ite (agree.closed.finalizeActiveSegment active) agree

variable (decoders : FragmentDecoders)

theorem scanItem (selected : related newer newer') (item : RolloutItem) :
    Agree related (scanItem decoders newer state item) (scanItem decoders newer' other item) := by
  cases item with
  | compacted compacted => exact agree.scanCompacted selected compacted
  | eventMsg event =>
    cases event with
    | turnStarted turnId => exact agree.scanTurnStarted turnId
    | turnAborted turnId => exact agree.scanTurnAborted turnId
    | _ =>
      obtain ⟨suffix, rfl, fits⟩ := agree
      exact ⟨suffix, rfl, fits⟩
  | _ =>
    obtain ⟨suffix, rfl, fits⟩ := agree
    exact ⟨suffix, rfl, fits⟩

theorem isComplete_eq : other.isComplete = state.isComplete := by
  obtain ⟨suffix, rfl, -⟩ := agree
  rfl

theorem reverseScan (older newer newer' : List RolloutItem)
    (selected : ∀ visited, related (visited ++ newer) (visited ++ newer')) :
    Agree related (reverseScan decoders older newer state)
      (reverseScan decoders older newer' other) := by
  induction older generalizing newer newer' state other with
  | nil => exact agree
  | cons item older ih =>
    have next := agree.scanItem decoders (show related newer newer' from selected []) item
    simp only [Reconstruction.reverseScan, next.isComplete_eq]
    refine ite next (ih next (item :: newer) (item :: newer') fun visited => ?_)
    simpa using selected (visited ++ [item])

theorem finish : Agree related (match state.activeSegment with
        | none => state
        | some active => { state with activeSegment := none }.finalizeActiveSegment active)
      (match other.activeSegment with
        | none => other
        | some active => { other with activeSegment := none }.finalizeActiveSegment active) := by
  rw [agree.activeSegment_eq]
  cases state.activeSegment with
  | none => exact agree
  | some active => exact agree.closed.finalizeActiveSegment active

end Agree

/-! ## Agreement up to the suffix -/

def AgreeButSuffix (state other : ReplayState) : Prop :=
  ∃ suffix, other = { state with rolloutSuffix := suffix }

theorem agree_true_iff {state other : ReplayState} :
    Agree (fun _ _ => True) state other ↔ AgreeButSuffix state other := by
  simp only [Agree, AgreeButSuffix, and_true]

namespace AgreeButSuffix

variable {state other : ReplayState}

theorem refl (state : ReplayState) : AgreeButSuffix state state := ⟨state.rolloutSuffix, rfl⟩

theorem trans {third : ReplayState} (first : AgreeButSuffix state other)
    (second : AgreeButSuffix other third) : AgreeButSuffix state third := by
  obtain ⟨_, rfl⟩ := first
  obtain ⟨suffix, rfl⟩ := second
  exact ⟨suffix, rfl⟩

variable (agree : AgreeButSuffix state other)
include agree

theorem base_eq : other.baseReplacementHistory = state.baseReplacementHistory := by
  obtain ⟨suffix, rfl⟩ := agree
  rfl

theorem settings_eq : other.previousTurnSettings = state.previousTurnSettings := by
  obtain ⟨suffix, rfl⟩ := agree
  rfl

theorem reference_eq : other.referenceContextItem = state.referenceContextItem := by
  obtain ⟨suffix, rfl⟩ := agree
  rfl

theorem reverseScan (decoders : FragmentDecoders) (older newer newer' : List RolloutItem) :
    AgreeButSuffix (reverseScan decoders older newer state)
      (reverseScan decoders older newer' other) :=
  agree_true_iff.mp ((agree_true_iff.mpr agree).reverseScan decoders older _ _ fun _ => trivial)

end AgreeButSuffix

/-! ## The suffix is a part of the rollout -/

variable (env : HistoryEnvironment) (decoders : FragmentDecoders)
  (policy : TruncationPolicy) (rolloutItems : List RolloutItem)

theorem scanItem_suffix (newer : List RolloutItem) (state : ReplayState) (item : RolloutItem) :
    (scanItem decoders newer state item).rolloutSuffix = state.rolloutSuffix ∨
      (scanItem decoders newer state item).rolloutSuffix = newer := by
  have agree : Agree (fun suffix other => suffix = other ∧
      (suffix = state.rolloutSuffix ∨ suffix = newer)) state state := ⟨_, rfl, rfl, .inl rfl⟩
  obtain ⟨_, -, -, selected⟩ := agree.scanItem decoders ⟨rfl, .inr rfl⟩ item
  exact selected

theorem reverseScan_suffix_subset (older newer : List RolloutItem) (state : ReplayState)
    (split : rolloutItems = older.reverse ++ newer) (within : state.rolloutSuffix ⊆ rolloutItems) :
    (reverseScan decoders older newer state).rolloutSuffix ⊆
      rolloutItems := by
  induction older generalizing newer state with
  | nil => exact within
  | cons item older ih =>
    have next : (scanItem decoders newer state item).rolloutSuffix ⊆ rolloutItems := by
      rcases scanItem_suffix decoders newer state item with
        same | selected
      · rwa [same]
      · rw [selected, split]
        exact List.subset_append_right _ _
    rw [reverseScan]
    split
    · exact next
    · exact ih (item :: newer) _ (by simp [split]) next

theorem reverseReplay_suffix_subset : (reverseReplay decoders rolloutItems).rolloutSuffix ⊆
      rolloutItems := by
  have scanned := reverseScan_suffix_subset decoders rolloutItems
    rolloutItems.reverse [] (ReplayState.initial rolloutItems) (by simp)
    (List.Subset.refl _)
  unfold reverseReplay
  dsimp only
  split
  · exact scanned
  · simpa using scanned

/-! ## Legacy compactions -/

/-- A compaction that was recorded without its replacement history. -/
def isLegacyCompaction : RolloutItem → Bool
  | .compacted compacted => compacted.replacementHistory.isNone
  | _ => false

theorem materializeItem_sawLegacyCompaction (state : MaterializedHistory) {item : RolloutItem}
    (modern : isLegacyCompaction item = false) :
    (materializeItem env policy state item).sawLegacyCompaction = state.sawLegacyCompaction := by
  cases item with
  | compacted compacted =>
    cases found : compacted.replacementHistory with
    | none => simp [isLegacyCompaction, found] at modern
    | some replacement => simp [materializeItem, found]
  | eventMsg event => cases event <;> rfl
  | _ => rfl

theorem materialize_sawLegacyCompaction
    (base : Option (List ResponseItem)) {items : List RolloutItem}
    (modern : ∀ item ∈ items, isLegacyCompaction item = false) :
    (materialize env policy base items).sawLegacyCompaction = false := by
  unfold materialize
  -- The flag is an invariant of the forward loop.
  refine List.foldlRecOn (motive := fun state : MaterializedHistory =>
      state.sawLegacyCompaction = false)
    items _ rfl ?_
  intro state unseen item mem
  rw [materializeItem_sawLegacyCompaction env policy state (modern item mem)]
  exact unseen

/-- Without legacy compactions the baseline is what the reverse pass found. -/
theorem referenceContextItem_of_modern
    (modern : ∀ item ∈ rolloutItems, isLegacyCompaction item = false) :
    (reconstructHistoryFromRollout env policy rolloutItems).referenceContextItem =
      (reverseReplay env.decoders rolloutItems).referenceContextItem.baseline := by
  have unseen := materialize_sawLegacyCompaction env policy
    (reverseReplay env.decoders rolloutItems).baseReplacementHistory
    (fun item mem => modern item (reverseReplay_suffix_subset env.decoders rolloutItems
        mem))
  simp [reconstructHistoryFromRollout, unseen]

end Codex.Session.SuffixAgreement
