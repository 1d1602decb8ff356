import Codex.Anthropic.RoleRuns

/-!
# When the roles of the messages alternate

Merging makes the roles alternate, but two later passes delete the messages
that became empty and do not merge again.  A run of one role vanishes when it
held only tool blocks without an adjacent partner, or, for the assistant, only
thinking that is not replayed.  The roles of the returned array alternate
exactly when the runs that vanish between two surviving runs are always even
in number.
-/

namespace Codex.Anthropic.RoleAlternation

open Passes RoleRuns Wire Library.KeyedRuns Protocol.JsonValue Protocol.Models Message List

/-! ## Which runs survive -/

/--
Whether a run survives, given what adjacency leaves of it and of the runs
after it.  A user run needs a block.  An assistant run needs a block that is
not thinking; the newest assistant run with a block may instead have thinking
that was not rebuilt.
-/
def survives (run : Message) (later : List Message) : Bool :=
  match run.role with
  | .user => !run.content.isEmpty
  | .assistant =>
    let latest := !later.any fun other => other.isAssistant && !other.content.isEmpty
    run.content.any fun block => !isThinking block || (latest && !isReconstructed block)

/-- The runs with the mark whether they survive. -/
def survivals : List Message → List (Role × Bool)
  | [] => []
  | run :: later => (run.role, survives run later) :: survivals later

def runSurvivals (env : WireEnvironment) (supportsImage : Bool)
    (input : List ResponseItem) : List (Role × Bool) :=
  survivals (adjacentRuns none (roleRuns env supportsImage input))

variable (env : WireEnvironment) (msgs : List Message) (capabilities : Capabilities)
  (input : List ResponseItem)

theorem map_fst_survivals : (survivals msgs).map (·.1) = msgs.map role := by
  induction msgs with
  | nil => rfl
  | cons run later ih => simp [survivals, ih]

theorem role_twoValued (first second third : Role)
    (left : first ≠ second) (right : second ≠ third) : first = third := by
  cases first <;> cases second <;> cases third <;> simp_all

/-! ## The roles after each pass -/

/-- Without an assistant message the thinking pass removes nothing. -/
theorem map_role_strip_of_users (users : ∀ msg ∈ msgs, msg.role = .user) :
    (((stripThinking msgs).map scrubMarker).filter
      keepsMessage).map role = msgs.map role := by
  induction msgs with
  | nil => rfl
  | cons msg rest ih =>
    rw [forall_mem_cons] at users
    rw [stripThinking, stripMessage_of_user _ _ users.1, map_cons, filter_cons_of_pos
        (keepsMessage_of_user (by simp [users.1])),
      map_cons, ih users.2]
    rfl

theorem map_role_stripPass : (stripThinkingFromNonLatestAssistantMessages msgs).map Message.role =
      (((stripThinking msgs).map scrubMarker).filter keepsMessage).map Message.role := by
  by_cases any : msgs.any isAssistant = true
  · simp only [stripThinkingFromNonLatestAssistantMessages, any, if_true]
    rfl
  · have users : ∀ msg ∈ msgs, msg.role = .user := by
      intro msg mem
      cases role : msg.role with
      | user => rfl
      | assistant =>
        refine absurd (any_eq_true.mpr ⟨msg, mem, ?_⟩) any
        simp [isAssistant, role]
    rw [map_role_strip_of_users msgs users,
      stripThinkingFromNonLatestAssistantMessages, if_neg any]

theorem keepsMessage_stripped (latest : Bool) {msg : Message}
    (assistant : msg.role = .assistant) :
    keepsMessage (scrubMarker (stripMessage latest msg)) = msg.content.any fun block =>
        !isThinking block || (latest && !isReconstructed block) := by
  have test : (fun block =>
      if latest = true then !(isThinking block && isReconstructed block)
      else !isThinking block) =
        fun block => !isThinking block || (latest && !isReconstructed block) := by
    funext block
    cases latest <;> simp [Bool.not_and]
  simp only [keepsMessage, scrubMarker, stripMessage,
    isAssistant, assistant, test, withContent_role,
    withContent_content, beq_self_eq_true, if_true,
    isEmpty_map, not_isEmpty_filter, Bool.not_true, Bool.false_or]

theorem any_isAssistant_hoisted : ((msgs.filter fun msg => !msg.content.isEmpty).map
        hoistMessage).any isAssistant =
      msgs.any fun other => other.isAssistant && !other.content.isEmpty := by
  rw [any_map, any_filter]
  congr 1
  funext msg
  simp [isAssistant, Bool.and_comm]

theorem map_role_stripped : (((stripThinking (hoistToolResultsToFront
        (msgs.filter fun msg => !msg.content.isEmpty))).map
          scrubMarker).filter keepsMessage).map Message.role =
      kept (survivals msgs) := by
  unfold hoistToolResultsToFront
  induction msgs with
  | nil => rfl
  | cons msg rest ih =>
    cases empty : msg.content.isEmpty with
    | true =>
      have vanishes : survives msg rest = false := by
        have nil : msg.content = [] := by simpa using empty
        cases role : msg.role <;> simp [survives, role, nil]
      rw [filter_cons_of_neg (by simp [empty]), ih, survivals, vanishes, kept_cons_false]
    | false =>
      rw [filter_cons_of_pos (by simp [empty]), map_cons,
        stripThinking, map_cons, any_isAssistant_hoisted,
        survivals]
      cases role : msg.role with
      | user =>
        have mark : survives msg rest = true := by simp [survives, role, empty]
        rw [mark, kept_cons_true, filter_cons_of_pos (keepsMessage_of_user (by simp [role])),
          map_cons, ih]
        simp [role]
      | assistant =>
        rw [hoistMessage_of_assistant msg role]
        have mark := keepsMessage_stripped (!rest.any fun other =>
            other.isAssistant && !other.content.isEmpty) role
        have same : survives msg rest = msg.content.any fun block =>
              !isThinking block || ((!rest.any fun other => other.isAssistant &&
                  !other.content.isEmpty) && !isReconstructed block) := by
          simp only [survives, role]
        rw [← same] at mark
        cases lives : survives msg rest with
        | true =>
          rw [kept_cons_true, filter_cons_of_pos (mark.trans lives), map_cons, ih]
          simp [role]
        | false => rw [kept_cons_false, filter_cons_of_neg (by simp [mark, lives]), ih]

theorem map_role_applyHistoryCacheControl :
    (applyHistoryCacheControl msgs).map role = msgs.map role := by
  have related := applyHistoryCacheControl_forall₂ msgs
  generalize applyHistoryCacheControl msgs = marked at related ⊢
  induction related with
  | nil => rfl
  | cons head _ ih => rcases head with rfl | ⟨-, rfl⟩ <;> simp [ih]

variable (supportsAssistantPrefill : Bool)

theorem map_role_appendSentinel (msgs : List Message) :
    (appendSentinel supportsAssistantPrefill msgs).map Message.role =
      if supportsAssistantPrefill = false ∧
          (msgs.map Message.role).getLast? = some .assistant then
        msgs.map Message.role ++ [.user]
      else msgs.map Message.role := by
  rw [getLast?_map]
  cases last : msgs.getLast? with
  | none => simp [appendSentinel, last]
  | some msg =>
    cases supportsAssistantPrefill <;>
      cases role : msg.role <;>
        simp [appendSentinel, last, isAssistant, role, sentinelMessage]

/-! ## The roles of the returned array -/

def survivingRoles (env : WireEnvironment) (supportsImage : Bool)
    (input : List ResponseItem) : List Role :=
  kept (runSurvivals env supportsImage input)

theorem map_role_historyMessages : (historyMessages env capabilities input).map role =
      if capabilities.supportsAssistantPrefill = false ∧
          (survivingRoles env capabilities.supportsImage input).getLast? = some .assistant then
        survivingRoles env capabilities.supportsImage input ++ [.user]
      else survivingRoles env capabilities.supportsImage input := by
  have stripped : (stripThinkingFromNonLatestAssistantMessages (hoistToolResultsToFront
          (cleanOrphanedToolBlocksByAdjacency (roleRuns env capabilities.supportsImage
              input)))).map role =
        survivingRoles env capabilities.supportsImage input := by
    rw [map_role_stripPass, cleanOrphanedToolBlocksByAdjacency,
      cleanFrom_eq_adjacentRuns, map_role_stripped]
    rfl
  simp only [historyMessages, translateItems_eq_roleRuns]
  split
  · rw [map_role_applyHistoryCacheControl, map_role_appendSentinel, stripped]
  · rw [map_role_appendSentinel, stripped]

theorem isChain_survivingRoles_iff (supportsImage : Bool) (input : List ResponseItem) :
    (survivingRoles env supportsImage input).IsChain (· ≠ ·) ↔ evenGaps
        ((runSurvivals env supportsImage input).map (·.2)) = true := by
  refine isChain_kept_iff role_twoValued _ ?_
  rw [runSurvivals, map_fst_survivals, map_role_adjacentRuns, isChain_map]
  exact isChain_runs role_join _

theorem isChain_historyMessages_iff : ((historyMessages env capabilities input).map
        role).IsChain (· ≠ ·) ↔
      (survivingRoles env capabilities.supportsImage input).IsChain (· ≠ ·) := by
  rw [map_role_historyMessages]
  split
  · next closed =>
      rw [isChain_append]
      constructor
      · exact And.left
      · intro chain
        refine ⟨chain, isChain_singleton _, ?_⟩
        simp [closed.2]
  · exact Iff.rfl

theorem getLast?_role_historyMessages (noPrefill : capabilities.supportsAssistantPrefill = false) :
    ∀ last ∈ (historyMessages env capabilities input).getLast?, last.role = .user := by
  intro last isLast
  have role : some last.role = ((historyMessages env
      capabilities input).map Message.role).getLast? := by
    rw [getLast?_map, Option.mem_def.mp isLast, Option.map_some]
  rw [map_role_historyMessages] at role
  split at role
  · simpa using role
  · next notClosed =>
      cases lastRole : last.role with
      | user => rfl
      | assistant =>
        rw [lastRole] at role
        exact absurd ⟨noPrefill, role.symm⟩ notClosed

/-! ## The result -/

/-- Roles alternate, and the array may be sent without prefill. -/
def Alternates (msgs : List Value) : Prop :=
  (msgs.map Message.roleOf).IsChain (· ≠ ·) ∧ (supportsAssistantPrefill = false →
      ∀ last ∈ msgs.getLast?, Message.roleOf last = some "user")

/--
The returned array alternates exactly when the runs of one role that vanish
between two surviving ones are always even in number.
-/
theorem conversation_alternates_iff (env : WireEnvironment) (capabilities : Capabilities)
    (input : List ResponseItem) :
    Alternates capabilities.supportsAssistantPrefill
        (conversationToAnthropicMessages env capabilities input) ↔
      evenGaps ((runSurvivals env capabilities.supportsImage input).map (·.2)) = true := by
  rw [← isChain_survivingRoles_iff, ← isChain_historyMessages_iff env capabilities]
  have texts : ∀ left right : Role, some left.text ≠ some right.text ↔ left ≠ right := by
    intro left right
    cases left <;> cases right <;> simp [Role.text]
  have chain : ((conversationToAnthropicMessages env capabilities
          input).map roleOf).IsChain (· ≠ ·) ↔
        ((historyMessages env capabilities input).map Message.role).IsChain (· ≠ ·) := by
    rw [conversationToAnthropicMessages, map_map, isChain_map, isChain_map]
    simp only [Function.comp_apply, roleOf_toJson, texts]
  constructor
  · exact fun alternates => chain.mp alternates.1
  · intro alternates
    refine ⟨chain.mpr alternates, fun noPrefill last isLast => ?_⟩
    rw [conversationToAnthropicMessages, getLast?_map,
      Option.mem_def, Option.map_eq_some_iff] at isLast
    obtain ⟨msg, isLast, rfl⟩ := isLast
    rw [roleOf_toJson, getLast?_role_historyMessages env
      capabilities input noPrefill msg isLast]
    rfl

/-- A turn that stopped after reasoning of another provider. -/
def reasoningOnlyTurn : List ResponseItem := [ .inputMessage "user" "q",
  .reasoning none [.summaryText "s"] none none none none,
  .inputMessage "user" "w"]

/-- The reasoning is not replayed, and two user messages are left. -/
theorem reasoningOnlyTurn_not_alternating : ¬ Alternates false
      (conversationToAnthropicMessages offlineEnvironment
        ⟨true, true, false⟩ reasoningOnlyTurn) := by
  have roles : (conversationToAnthropicMessages offlineEnvironment
        ⟨true, true, false⟩ reasoningOnlyTurn).map roleOf = [some "user", some "user"] := by
    decide +kernel
  rintro ⟨chain, -⟩
  rw [roles] at chain
  simp at chain

end Codex.Anthropic.RoleAlternation
