import Codex.Rust.Text
import Codex.Protocol.Models

/-!
# Output truncation

`utils/string/src/truncate.rs` keeps the beginning and the end of a long text
and replaces its middle by a marker; `utils/output-truncation` applies this
to the texts of a tool output under one shared budget.  Lengths are UTF-8 byte
lengths, and cuts are made on character boundaries.
-/

namespace Codex.Context.TextTruncation

open Rust.Text Protocol.Models

/-! ## Token estimates -/

def approxBytesPerToken : Nat := 4

variable (text : String)

def approxTokenCount : Nat :=
  saturatingAdd text.utf8ByteSize (approxBytesPerToken - 1) / approxBytesPerToken

def approxBytesForTokens (tokens : Nat) : Nat := saturatingMul tokens approxBytesPerToken

def approxTokensFromByteCount (bytes : Nat) : Nat :=
  min (bytes + (approxBytesPerToken - 1)) u64Max / approxBytesPerToken

/-! ## Cutting the middle of a text -/

/-- The characters that lie within the first `bytes` bytes. -/
def takeBytes : Nat → List Char → List Char
  | _, [] => []
  | bytes, char :: rest =>
    if char.utf8Size ≤ bytes then char :: takeBytes (bytes - char.utf8Size) rest
    else []

/-- The characters from byte `bytes` on, which is a character boundary. -/
def dropBytes : Nat → List Char → List Char
  | _, [] => []
  | bytes, char :: rest =>
    if char.utf8Size ≤ bytes then dropBytes (bytes - char.utf8Size) rest
    else char :: rest

structure SplitState where
  index : Nat
  prefixEnd : Nat
  suffixStart : Nat
  removedChars : Nat
  suffixStarted : Bool
deriving DecidableEq

def splitStep (beginningBytes tailStartTarget : Nat)
    (state : SplitState) (char : Char) : SplitState :=
  let charEnd := state.index + char.utf8Size
  if charEnd ≤ beginningBytes then { state with index := charEnd, prefixEnd := charEnd }
  else if tailStartTarget ≤ state.index then
    if state.suffixStarted then { state with index := charEnd }
    else
      { state with
        index := charEnd
        suffixStart := state.index
        suffixStarted := true }
  else
    { state with
      index := charEnd
      removedChars := saturatingAdd state.removedChars 1 }

/-- `split_string`: removed character count, kept head and kept tail. -/
def splitString (beginningBytes endBytes : Nat) : Nat × String × String :=
  let start : SplitState := ⟨0, 0, text.utf8ByteSize, 0, false⟩
  let final := text.toList.foldl (splitStep beginningBytes (text.utf8ByteSize - endBytes)) start
  let suffixStart := max final.suffixStart final.prefixEnd
  (final.removedChars, String.ofList (takeBytes final.prefixEnd text.toList),
    String.ofList (dropBytes suffixStart text.toList))

def formatTruncationMarker (useTokens : Bool) (removedCount : Nat) : String :=
  if useTokens then "…" ++ toString removedCount ++ " tokens truncated…"
  else "…" ++ toString removedCount ++ " chars truncated…"

def removedUnits (useTokens : Bool) (removedBytes removedChars : Nat) : Nat :=
  if useTokens then approxTokensFromByteCount removedBytes
  else removedChars

def truncateWithByteEstimate (maxBytes : Nat) (useTokens : Bool) : String :=
  if text.isEmpty then ""
  else if maxBytes = 0 then
    formatTruncationMarker useTokens (removedUnits useTokens text.utf8ByteSize text.length)
  else if text.utf8ByteSize ≤ maxBytes then text
  else
    let left := maxBytes / 2
    let parts := splitString text left (maxBytes - left)
    parts.2.1 ++ formatTruncationMarker useTokens (removedUnits useTokens
          (text.utf8ByteSize - maxBytes) parts.1) ++
      parts.2.2

def truncateMiddleChars (maxBytes : Nat) : String := truncateWithByteEstimate text maxBytes false

/-- The text returned by `truncate_middle_with_token_budget`. -/
def truncateMiddleWithTokenBudget (maxTokens : Nat) : String :=
  if text.isEmpty then ""
  else if 0 < maxTokens ∧
      text.utf8ByteSize ≤ approxBytesForTokens maxTokens then text
  else truncateWithByteEstimate text (approxBytesForTokens maxTokens) true

/-! ## Policies -/

inductive TruncationPolicy where
  | bytes (limit : Nat)
  | tokens (limit : Nat)
deriving DecidableEq

def truncateText (content : String) : TruncationPolicy → String
  | .bytes limit => truncateMiddleChars content limit
  | .tokens limit => truncateMiddleWithTokenBudget content limit

namespace TruncationPolicy

def withLimit : TruncationPolicy → Nat → TruncationPolicy
  | .bytes _, limit => .bytes limit
  | .tokens _, limit => .tokens limit

def limit : TruncationPolicy → Nat
  | .bytes limit => limit
  | .tokens limit => limit

def cost : TruncationPolicy → Nat
  | .bytes _ => text.utf8ByteSize
  | .tokens _ => approxTokenCount text

end TruncationPolicy

/-! ## Tool outputs -/

structure OutputItemsState where
  out : List FunctionCallOutputContentItem
  remainingBudget : Nat
  omittedTextItems : Nat
deriving DecidableEq

def truncateOutputItem (policy : TruncationPolicy) (state : OutputItemsState)
    (item : FunctionCallOutputContentItem) : OutputItemsState :=
  match item with
  | .inputText text =>
    if state.remainingBudget = 0 then { state with omittedTextItems := state.omittedTextItems + 1 }
    else
      let cost := policy.cost text
      if cost ≤ state.remainingBudget then
        { state with
          out := state.out ++ [.inputText text]
          remainingBudget := state.remainingBudget - cost }
      else
        let snippet := truncateText text (policy.withLimit state.remainingBudget)
        if snippet.isEmpty then
          { state with
            omittedTextItems := state.omittedTextItems + 1
            remainingBudget := 0 }
        else
          { state with
            out := state.out ++ [.inputText snippet]
            remainingBudget := 0 }
  | other => { state with out := state.out ++ [other] }

def truncateFunctionOutputItemsWithPolicy (items : List FunctionCallOutputContentItem)
    (policy : TruncationPolicy) : List FunctionCallOutputContentItem :=
  let final := items.foldl (truncateOutputItem policy) ⟨[], policy.limit, 0⟩
  if 0 < final.omittedTextItems then
    final.out ++ [.inputText ("[omitted " ++ toString final.omittedTextItems ++ " text items ...]")]
  else final.out

def truncateFunctionOutputPayload (output : FunctionCallOutputPayload)
    (policy : TruncationPolicy) : FunctionCallOutputPayload :=
  { output with
    body :=
      match output.body with
      | .text content => .text (truncateText content policy)
      | .contentItems items => .contentItems (truncateFunctionOutputItemsWithPolicy items policy) }

end Codex.Context.TextTruncation
