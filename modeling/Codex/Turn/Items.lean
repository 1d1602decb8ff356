import Codex.Context.ContextualFragments
import Codex.StreamParser.AssistantText
import Mathlib

/-!
# Turn items and client events

`parse_turn_item` of `core/src/event_mapping.rs` turns a response item into
what clients show, under the item's own id or a fresh one.  `ClientEvent` is
the part of the session's events that follows these items.
-/

namespace Codex.Turn.Items

open Rust.Text Protocol.Models Context.ContextualFragments
  StreamParser.AssistantText

/-! ## Items -/

/-- `UserInput`, as far as a message is parsed into it. -/
inductive UserInput where
  | text (text : String)
  | image (imageUrl : String) (detail : Option ImageDetail)
deriving DecidableEq

/-- `AgentMessageItem`, whose content is text only. -/
structure AgentMessageItem where
  id : String
  content : List String
  phase : Option MessagePhase
deriving DecidableEq

def AgentMessageItem.text (item : AgentMessageItem) : String := String.join item.content

/-- `TurnItem`, as far as responses are parsed into it. -/
inductive TurnItem where
  | userMessage (id : String) (content : List UserInput)
  | hookPrompt (id : String) (fragments : List HookPromptFragment)
  | agentMessage (item : AgentMessageItem)
  | plan (id text : String)
  | reasoning (id : String) (summaryText rawContent : List String)
  | webSearch (id query : String) (action : WebSearchAction)
  | imageGeneration (id status : String) (revisedPrompt : Option String)
      (result : String) (savedPath : Option String)
deriving DecidableEq

def TurnItem.id : TurnItem → String
  | .userMessage id _ => id
  | .hookPrompt id _ => id
  | .agentMessage item => item.id
  | .plan id _ => id
  | .reasoning id _ _ => id
  | .webSearch id _ _ => id
  | .imageGeneration id _ _ _ _ => id

def TurnItem.isAgentMessage : TurnItem → Bool
  | .agentMessage _ => true
  | _ => false

/-! ## Events for clients -/

/-- The `EventMsg`s that announce, stream and complete items. -/
inductive ClientEvent where
  | itemStarted (item : TurnItem)
  | itemCompleted (item : TurnItem)
  | agentMessageContentDelta (itemId delta : String)
  | planDelta (itemId delta : String)
  | reasoningContentDelta (itemId delta : String) (summaryIndex : Int64)
  | reasoningRawContentDelta (itemId delta : String) (contentIndex : Int64)
  | agentReasoningSectionBreak (itemId : String) (summaryIndex : Int64)
  | warning (message : String)
deriving DecidableEq

/-! ## Parsing -/

/-- The ids that `Uuid::new_v4` gives, in the order they are drawn. -/
structure FreshIds where
  text : Nat → String
  injective : Function.Injective text
  hyphen : ∀ number, (text number).toList[8]? = some '-'

/-- UUIDs that count upwards in their last group. -/
def countedIds : FreshIds where
  text number := "00000000-0000-4000-8000-" ++ Nat.repr (number + 100000000000)
  injective := by
    intro left right same
    have repr := String.append_right_inj _ |>.mp same
    exact Nat.add_right_cancel (Nat.repr_inj.mp repr)
  hyphen := by
    intro number
    rw [String.toList_append]
    rfl

/-- An id, or a fresh one, and the number of fresh ids drawn after that. -/
def FreshIds.choose (fresh : FreshIds) (drawn : Nat) : Option String → String × Nat
  | some id => (id, drawn)
  | none => (fresh.text drawn, drawn + 1)

/-- `parse_visible_hook_prompt_message`, as the fragments of the prompt. -/
def visibleHookPrompt (decoders : FragmentDecoders) :
    List ContentItem → Option (List HookPromptFragment)
  | [] => some []
  | .inputText text :: rest =>
    match parseHookPromptFragment decoders text with
    | some fragment => (visibleHookPrompt decoders rest).map (fragment :: ·)
    | none =>
      if isStandardContextualUserText text then visibleHookPrompt decoders rest
      else none
  | _ :: _ => none

/-- `is_local_image_open_tag_text` or `is_image_open_tag_text`. -/
def isImageOpenTagText (text : String) : Bool :=
  ((stripPrefix? text "<image name=").any fun rest => endsWith rest ">") || text == "<image>"

def isImageCloseTagText (text : String) : Bool := text == "</image>"

def isInputImage : ContentItem → Bool
  | .inputImage _ _ => true
  | _ => false

/--
The loop of `parse_user_message`; `previous` is the content item before the
rest.
-/
def userInputs : Option ContentItem → List ContentItem → List UserInput
  | _, [] => []
  | prev, item :: rest =>
    let later := userInputs (some item) rest
    match item with
    | .inputText text =>
      if (isImageOpenTagText text && rest.head?.any isInputImage) ||
          (isImageCloseTagText text && prev.any isInputImage) then
        later
      else .text text :: later
    | .inputImage imageUrl detail => .image imageUrl detail :: later
    | .outputText _ => later

/-- The texts that `parse_agent_message` keeps. -/
def agentTexts (content : List ContentItem) : List String := content.filterMap fun
    | .inputText text => some text
    | .outputText text => some text
    | .inputImage _ _ => none

def searchActionDetail (query : Option String) (queries : Option (List String)) : String :=
  match query.filter (fun query => !query.isEmpty) with
  | some query => query
  | none =>
    let queries := queries.getD []
    let first := queries.headD ""
    if 1 < queries.length && !first.isEmpty then first ++ " ..."
    else first

def webSearchActionDetail : WebSearchAction → String
  | .search query queries => searchActionDetail query queries
  | .openPage url => url.getD ""
  | .findInPage (some url) (some pattern) => "'" ++ pattern ++ "' in " ++ url
  | .findInPage none (some pattern) => "'" ++ pattern ++ "'"
  | .findInPage (some url) none => url
  | .findInPage none none => ""
  | .other => ""

def reasoningSummaryText : ReasoningItemReasoningSummary → String
  | .summaryText text => text

def reasoningContentText : ReasoningItemContent → String
  | .reasoningText text => text
  | .text text => text

/-- `parse_turn_item`, with the number of fresh ids drawn before and after. -/
def parseTurnItem (decoders : FragmentDecoders) (fresh : FreshIds)
    (drawn : Nat) : ResponseItem → Option TurnItem × Nat
  | .message id role content phase =>
    if role = "user" then
      match visibleHookPrompt decoders content with
      | some (fragment :: fragments) =>
        let (id, drawn) := fresh.choose drawn id
        (some (.hookPrompt id (fragment :: fragments)), drawn)
      | _ =>
        if isContextualUserMessageContent decoders content then (none, drawn)
        else
          let (id, drawn) := fresh.choose drawn none
          (some (.userMessage id (userInputs none content)), drawn)
    else if role = "assistant" then
      let (id, drawn) := fresh.choose drawn id
      (some (.agentMessage ⟨id, agentTexts content, phase⟩), drawn)
    else (none, drawn)
  | .reasoning id summary content _ _ _ =>
    (some (.reasoning (id.getD "") (summary.map reasoningSummaryText)
      ((content.getD []).map reasoningContentText)), drawn)
  | .webSearchCall id _ action =>
    match action with
    | some action =>
      (some (.webSearch (id.getD "") (webSearchActionDetail action)
        action), drawn)
    | none => (some (.webSearch (id.getD "") "" .other), drawn)
  | .imageGenerationCall id status revisedPrompt result =>
    (some (.imageGeneration id status revisedPrompt result none), drawn)
  | _ => (none, drawn)

/-! ## Texts of an item -/

def outputText (content : List ContentItem) : String := String.join (content.filterMap fun
    | .outputText text => some text
    | _ => none)

def rawAssistantOutputText : ResponseItem → Option String
  | .message _ role content _ => if role = "assistant" then some (outputText content) else none
  | _ => none

/--
The text of `strip_hidden_assistant_markup_and_parse_memory_citation`.
-/
def stripHiddenAssistantMarkup (text : String) (planMode : Bool) : String :=
  let withoutCitations := (stripCitations text.toList).1
  String.ofList (if planMode then stripProposedPlanBlocks withoutCitations
     else withoutCitations)

end Codex.Turn.Items
