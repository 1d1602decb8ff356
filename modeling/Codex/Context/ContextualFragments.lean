import Codex.Rust.Text
import Codex.Protocol.Models

/-!
# Contextual fragments and turn boundaries

Part of what a conversation history holds was injected by the harness rather
than written by the user.  `core/src/context` and `core/src/event_mapping.rs`
recognise such fragments by their markers, and
`core/src/context_manager/history.rs` derives from them which messages start
an instruction turn.
-/

namespace Codex.Context.ContextualFragments

open Rust.Text Protocol.Models

structure HookPromptFragment where
  text : String
  hookRunId : String
deriving DecidableEq

/-- The decoders of external crates that the recognisers call. -/
structure FragmentDecoders where
  /-- `from_xml_str::<HookPromptXml>`. -/
  hookPromptXml : String → Option HookPromptFragment
  /-- Whether `serde_json::from_str::<InterAgentCommunication>` succeeds. -/
  interAgentCommunication : String → Bool

/-! ## User fragments -/

def matchesMarkedText (startMarker endMarker text : String) : Bool :=
  if startMarker.isEmpty || endMarker.isEmpty then false
  else
    let trimmed := trimStart text
    startsWithIgnoreAsciiCase trimmed startMarker &&
      endsWithIgnoreAsciiCase (trimEnd trimmed) endMarker

variable (text : String)

def matchesAdditionalContext : Bool :=
  match stripPrefix? (trim text) "<external_" with
  | none => false
  | some rest =>
    match splitOnce rest ">" with
    | none => false
    | some (key, valueAndClose) => endsWith valueAndClose ("</external_" ++ key ++ ">")

def matchesLegacyUnifiedExecProcessLimitWarning : Bool := startsWith (trim text)
    "Warning: The maximum number of unified exec processes you can keep open is"

def matchesLegacyApplyPatchExecCommandWarning : Bool :=
  startsWith (trim text) "Warning: apply_patch was requested via " && endsWith (trim text)
      "Use the apply_patch tool instead of exec_command."

def matchesLegacyModelMismatchWarning : Bool := startsWith (trim text)
    "Warning: Your account was flagged for potentially high-risk cyber activity"

/-- `CONTEXTUAL_USER_FRAGMENTS`, in registration order. -/
def contextualUserFragments : List (String → Bool) :=
  [matchesMarkedText "# AGENTS.md instructions for " "</INSTRUCTIONS>",
    matchesMarkedText "<environment_context>" "</environment_context>",
    matchesAdditionalContext,
    matchesMarkedText "<skill>" "</skill>",
    matchesMarkedText "<user_shell_command>" "</user_shell_command>",
    matchesMarkedText "<turn_aborted>" "</turn_aborted>",
    matchesMarkedText "<subagent_notification>" "</subagent_notification>",
    matchesMarkedText "<plan_state>" "</plan_state>",
    matchesMarkedText "<goal_context>" "</goal_context>",
    matchesLegacyUnifiedExecProcessLimitWarning,
    matchesLegacyApplyPatchExecCommandWarning,
    matchesLegacyModelMismatchWarning]

def isStandardContextualUserText : Bool :=
  contextualUserFragments.any fun matchesText => matchesText text

variable (decoders : FragmentDecoders)

def parseHookPromptFragment (text : String) : Option HookPromptFragment :=
  match decoders.hookPromptXml (trim text) with
  | none => none
  | some fragment =>
    if (trim fragment.hookRunId).isEmpty then none
    else some fragment

def isContextualUserFragment : ContentItem → Bool
  | .inputText text =>
    (parseHookPromptFragment decoders text).isSome || isStandardContextualUserText text
  | _ => false

variable (message : List ContentItem)

def isContextualUserMessageContent : Bool := message.any (isContextualUserFragment decoders)

/-! ## Developer fragments -/

def contextualDeveloperPrefixes : List String := ["<permissions instructions>", "<model_switch>",
    "<collaboration_mode>", "<realtime_conversation>",
    "<personality_spec>"]

def isContextualDevFragment : ContentItem → Bool
  | .inputText text => contextualDeveloperPrefixes.any (startsWithIgnoreAsciiCase (trimStart text))
  | _ => false

def isContextualDevMessageContent : Bool := message.any isContextualDevFragment

def hasNonContextualDevMessageContent : Bool :=
  message.any fun item => !isContextualDevFragment item

/-! ## Turn boundaries -/

def isInterAgentInstructionContent : List ContentItem → Bool
  | [.inputText text] => decoders.interAgentCommunication text
  | [.outputText text] => decoders.interAgentCommunication text
  | _ => false

def isUserTurnBoundary : ResponseItem → Bool
  | .message _ role content _ =>
    (role == "user" &&
        !isContextualUserMessageContent decoders content) ||
      (role == "assistant" &&
        isInterAgentInstructionContent decoders content)
  | _ => false

/--
A contextual developer or user message: what a rollback trims above the turn
boundary it cuts at.
-/
def isContextualMessage : ResponseItem → Bool
  | .message _ role content _ =>
    (role == "developer" &&
        isContextualDevMessageContent content) ||
      (role == "user" &&
        isContextualUserMessageContent decoders content)
  | _ => false

theorem isUserTurnBoundary_of_contextual (item : ResponseItem)
    (contextual : isContextualMessage decoders item = true) :
    isUserTurnBoundary decoders item = false := by
  cases item with
  | message id role content phase =>
    simp only [isContextualMessage, Bool.or_eq_true, Bool.and_eq_true, beq_iff_eq] at contextual
    rcases contextual with ⟨developer, _⟩ | ⟨user, fragment⟩
    · subst developer
      simp [isUserTurnBoundary]
    · subst user
      simp [isUserTurnBoundary, fragment]
  | _ => simp [isUserTurnBoundary]

end Codex.Context.ContextualFragments
