import Codex.Context.ContextHistory

/-!
# Compacted histories

`core/src/compact.rs` replaces a long history by the user's own messages,
newest first within a token budget, followed by a summary.  The user messages
are read back through `core/src/event_mapping.rs`, which leaves out injected
fragments and the tags around attached images.
-/

namespace Codex.Context.CompactedHistory

open Rust.Text Protocol.Models ContextualFragments TextTruncation

variable (text : String)

/-! ## Reading user messages -/

def isLocalImageOpenTagText : Bool :=
  match stripPrefix? text "<image name=" with
  | none => false
  | some rest => endsWith rest ">"

def isImageOpenTagText : Bool := text == "<image>"

/-- `is_image_close_tag_text`, also for local images. -/
def isImageCloseTagText : Bool := text == "</image>"

def isInputImage : Option ContentItem → Bool
  | some (.inputImage _ _) => true
  | _ => false

/--
The texts that `parse_user_message` keeps: a tag right before or after an
image is dropped, and so is output text.
-/
def userMessageTexts (prev : Option ContentItem) : List ContentItem → List String
  | [] => []
  | .inputText text :: rest =>
    if ((isLocalImageOpenTagText text || isImageOpenTagText text) &&
          isInputImage rest.head?) ||
        (isImageCloseTagText text && isInputImage prev) then
      userMessageTexts (some (.inputText text)) rest
    else text :: userMessageTexts (some (.inputText text)) rest
  | item :: rest => userMessageTexts (some item) rest

variable (decoders : FragmentDecoders) (content : List ContentItem)

/-- `parse_user_message` followed by `UserMessageItem::message`. -/
def parseUserMessage : Option String :=
  if isContextualUserMessageContent decoders content then none
  else some (String.join (userMessageTexts none content))

/--
Whether `parse_visible_hook_prompt_message` reads a message as hook prompts:
every item is a hook prompt or a standard contextual text, and one is a hook
prompt.
-/
def isVisibleHookPromptMessage : Bool :=
  content.all (fun item =>
        match item with
        | .inputText text =>
          (parseHookPromptFragment decoders text).isSome || isStandardContextualUserText text
        | _ => false) &&
    content.any (fun item =>
        match item with
        | .inputText text => (parseHookPromptFragment decoders text).isSome
        | _ => false)

/-- The user message that `parse_turn_item` reads from an item, if any. -/
def userMessageOf : ResponseItem → Option String
  | .message _ role content _ =>
    if role == "user" then
      if isVisibleHookPromptMessage decoders content then none
      else parseUserMessage decoders content
    else none
  | _ => none

def summaryPrefix : String := "This is a continuation of your own earlier work in this same " ++
    "single session. Before the context was compacted, you produced " ++
    "the summary below of your own thinking process, and you still " ++
    "have access to the state of the tools you used. There is only " ++
    "one active session, agent, and process: this one. Any process " ++
    "IDs, ports, or sibling/session references inside the summary are " ++
    "historical notes from your own earlier steps, not other agents " ++
    "running concurrently. Use the summary to continue your own work " ++
    "without redoing steps you have already completed:\n"

def isSummaryMessage (message : String) : Bool := startsWith message (summaryPrefix ++ "\n")

def collectUserMessages (items : List ResponseItem) : List String :=
  items.filterMap fun item =>
    match userMessageOf decoders item with
    | none => none
    | some message => if isSummaryMessage message then none else some message

/-! ## Rebuilding a history -/

def compactUserMessageMaxTokens : Nat := 20000

/--
The selection loop of `build_compacted_history_with_limit`, over the messages
from the newest to the oldest.
-/
def selectMessages : Nat → List String → List String
  | _, [] => []
  | remaining, message :: older =>
    if remaining = 0 then []
    else
      let tokens := approxTokenCount message
      if tokens ≤ remaining then message :: selectMessages (remaining - tokens) older
      else [truncateText message (.tokens remaining)]

def userTextMessage : ResponseItem := .message none "user" [.inputText text] none

def buildCompactedHistoryWithLimit (history : List ResponseItem) (userMessages : List String)
    (summaryText : String) (maxTokens : Nat) : List ResponseItem :=
  let selected :=
    if 0 < maxTokens then (selectMessages maxTokens userMessages.reverse).reverse
    else []
  let summary :=
    if summaryText.isEmpty then "(no summary available)"
    else summaryText
  history ++ selected.map userTextMessage ++ [userTextMessage summary]

def buildCompactedHistory (initialContext : List ResponseItem) (userMessages : List String)
    (summaryText : String) : List ResponseItem :=
  buildCompactedHistoryWithLimit initialContext userMessages summaryText compactUserMessageMaxTokens

end Codex.Context.CompactedHistory
