import Codex.Session.TurnListSync

/-!
# User messages by their place in a rollout

The model of `user_message_positions_in_rollout` of
`core/src/thread_rollout_truncation.rs`, compared with the replayed history.
A rollback marker takes back user messages from the positions, and turn
boundaries from the history: also the messages by which agents instruct each
other.
-/

namespace Codex.Session.RolloutPositions

open Library.RolledBackBlocks Protocol.Models Context.ContextualFragments List
  Context.TextTruncation
  Context.ContextHistory Context.CompactedHistory Reconstruction TurnListSync

variable (decoders : FragmentDecoders) (item : ResponseItem)

/-- Whether `parse_turn_item` reads an item as a user message. -/
def isUserMessage : Bool := (userMessageOf decoders item).isSome

def userPositionsFrom (decoders : FragmentDecoders) : Nat → List Nat → List RolloutItem → List Nat
  | _, userPositions, [] => userPositions
  | idx, userPositions, .responseItem item :: rest =>
    userPositionsFrom decoders (idx + 1)
      (if isUserMessage decoders item then userPositions ++ [idx] else userPositions) rest
  | idx, userPositions, .eventMsg (.threadRolledBack numTurns) :: rest =>
    userPositionsFrom decoders (idx + 1)
      (userPositions.take (userPositions.length - numTurns.toNat)) rest
  | idx, userPositions, _ :: rest => userPositionsFrom decoders (idx + 1) userPositions rest

def userMessagePositionsInRollout (items : List RolloutItem) : List Nat :=
  userPositionsFrom decoders 0 [] items

/-! ## Rollouts without compaction -/

inductive ReplayEntry where
  | responseItem (item : ResponseItem)
  | threadRolledBack (numTurns : UInt32)

def ReplayEntry.rolloutItem : ReplayEntry → RolloutItem
  | .responseItem item => .responseItem item
  | .threadRolledBack numTurns => .eventMsg (.threadRolledBack numTurns)

def ReplayEntry.logged : ReplayEntry → Entry ResponseItem
  | .responseItem item => .block item
  | .threadRolledBack numTurns => .rollback numTurns.toNat

def rolloutOf (entries : List ReplayEntry) : List RolloutItem := entries.map ReplayEntry.rolloutItem

theorem isUserTurnBoundary_of_isUserMessage
    (isUser : isUserMessage decoders item = true) : isUserTurnBoundary decoders item = true := by
  cases item with
  | message id role content phase =>
    simp only [isUserMessage, userMessageOf, parseUserMessage] at isUser
    split at isUser
    · split at isUser
      · cases isUser
      · split at isUser <;> simp_all [isUserTurnBoundary]
    · cases isUser
  | _ => cases isUser

/-- The items at the positions are what is left of the user messages alone. -/
theorem map_userPositionsFrom {decoders : FragmentDecoders} (whole : List RolloutItem)
    (entries : List ReplayEntry) (idx : Nat) (userPositions : List Nat) (kept : List ResponseItem)
    (here : whole.drop idx = rolloutOf entries)
    (found : userPositions.map (whole[·]?) = kept.map (some <| .responseItem ·)) :
    (userPositionsFrom decoders idx userPositions (rolloutOf entries)).map (whole[·]?) =
      ((entries.map ReplayEntry.logged).foldl (step (seen (isUserMessage decoders))) kept).map
        (some <| .responseItem ·) := by
  induction entries generalizing idx userPositions kept with
  | nil => exact found
  | cons entry rest ih =>
    have next : whole.drop (idx + 1) = rolloutOf rest := by
      rw [← tail_drop, here]
      rfl
    cases entry with
    | responseItem item =>
      have atIdx : whole[idx]? = some (.responseItem item) := by
        rw [← head?_drop, here]
        rfl
      refine ih (idx + 1) _ _ next ?_
      simp only [ReplayEntry.logged, step, seen]
      split
      · simp [found, atIdx]
      · simpa using found
    | threadRolledBack numTurns =>
      refine ih (idx + 1) _ _ next ?_
      have sameLength := congrArg List.length found
      rw [length_map, length_map] at sameLength
      simp only [ReplayEntry.logged, step, map_take, found, sameLength]

variable (env : HistoryEnvironment) (policy : TruncationPolicy)

/-- The history after recording every item and dropping turns at every marker. -/
def replayedItems (rollout : List RolloutItem) : List ResponseItem :=
  (rollout.foldl (materializeItem env policy) ⟨.new, false⟩).history.items

theorem filter_foldl_materializeItem (entries : List ReplayEntry) (state : MaterializedHistory) :
    ((rolloutOf entries).foldl (materializeItem env policy)
        state).history.items.filter (isUserTurnBoundary env.decoders) =
      (entries.map ReplayEntry.logged).foldl (step (seen (isUserTurnBoundary env.decoders)))
        (state.history.items.filter (isUserTurnBoundary env.decoders)) := by
  induction entries generalizing state with
  | nil => rfl
  | cons entry rest ih =>
    rw [rolloutOf, map_cons, map_cons, foldl_cons, foldl_cons, ← rolloutOf, ih]
    congr 1
    cases entry with
    | responseItem item =>
      simp only [ReplayEntry.rolloutItem, materializeItem, ContextManager.recordItems,
        filter_append, filter_recorded, ReplayEntry.logged, step, seen, filter_cons,
        filter_nil]
    | threadRolledBack numTurns =>
      simp only [ReplayEntry.rolloutItem, materializeItem, dropLastNUserTurns_items,
        filter_dropMarked (isUserTurnBoundary_of_contextual env.decoders)]
      rfl

/--
The items at the positions are the user messages of the replayed history
exactly if, read from the end of the rollout, no user message is met where the
boundaries to be taken back have all been met but the user messages have not.
-/
theorem positions_match_history_iff (entries : List ReplayEntry) :
    (userMessagePositionsInRollout env.decoders (rolloutOf entries)).map ((rolloutOf entries)[·]?) =
      ((replayedItems env policy (rolloutOf entries)).filter
        (isUserMessage env.decoders)).map (some <| .responseItem ·) ↔
    Settled (isUserTurnBoundary env.decoders) (isUserMessage env.decoders)
      (entries.map ReplayEntry.logged).reverse 0 0 := by
  have within := isUserTurnBoundary_of_isUserMessage env.decoders
  have boundaries := filter_foldl_materializeItem env policy entries ⟨.new, false⟩
  have narrowed : (replayedItems env policy (rolloutOf entries)).filter
      (isUserMessage env.decoders) = (replay (seen (isUserTurnBoundary env.decoders))
        (entries.map ReplayEntry.logged)).filter (isUserMessage env.decoders) := by
    rw [replay, ← filter_nil (p := isUserTurnBoundary env.decoders)]
    refine Eq.trans ?_ (congrArg (List.filter (isUserMessage env.decoders)) boundaries)
    rw [filter_filter]
    refine (filter_congr fun item _ => ?_).symm
    cases isUser : isUserMessage env.decoders item with
    | false => simp
    | true => simp [within item isUser]
  rw [userMessagePositionsInRollout, narrowed,
    map_userPositionsFrom (rolloutOf entries) entries 0 [] [] rfl rfl, ← (survivors_narrow
      within _ 0 0 (le_refl _)).2, ← replay_eq_survivors, ← replay_eq_survivors]
  exact (map_injective_iff.mpr fun _ _ same => by simpa using same).eq_iff

/-- `InterAgentCommunication` of another agent, as it stands in a message. -/
def goOn : String := "\x7b\"author\":\"/root\",\"recipient\":\"/root/worker\"," ++
  "\"other_recipients\":[],\"content\":\"go on\",\"trigger_turn\":true\x7d"

/-- A session with this instruction from another agent. -/
def agentEnvironment : HistoryEnvironment :=
  { plainEnvironment with decoders := ⟨fun _ => none, fun text => text == goOn⟩ }

/-- A question, an instruction from an agent, and a rollback of one turn. -/
def rolledBackInstruction : List RolloutItem :=
  [.responseItem (.inputMessage "user" "hello"), .responseItem (.inputMessage "assistant" goOn),
    .eventMsg (.threadRolledBack 1)]

theorem rolled_back_instruction_loses_question :
    userMessagePositionsInRollout agentEnvironment.decoders rolledBackInstruction = [] ∧
      (replayedItems agentEnvironment (.bytes 100) rolledBackInstruction).filter
        (isUserMessage agentEnvironment.decoders) = [.inputMessage "user" "hello"] := by
  decide +kernel

end Codex.Session.RolloutPositions
