import Mathlib.Data.Int.Basic

/-!
# Token usage of a stream

`codex-api/src/sse/usage.rs` turns the counters of a wire into the protocol's
`TokenUsage`, whose input count includes cached tokens.  The `/messages` wire
reports counters at the start and again with each message delta, and
`codex-api/src/sse/messages.rs` merges them.
-/

namespace Codex.Sse.Usage

structure RawUsage where
  apiInput : Int
  cacheRead : Int
  cacheCreation : Int
  output : Int
  reasoningOutput : Int
  inputIsCacheInclusive : Bool
  apiTotal : Option Int
  webSearchRequests : Int
  webFetchRequests : Int
deriving DecidableEq

structure TokenUsage where
  inputTokens : Int
  cachedInputTokens : Int
  cacheCreationInputTokens : Int
  outputTokens : Int
  reasoningOutputTokens : Int
  totalTokens : Int
  webSearchRequests : Int
  webFetchRequests : Int
deriving DecidableEq

/-- `+` on `i64`, which wraps around in a release build. -/
def addI64 (left right : Int) : Int := (left + right).bmod 18446744073709551616

/-- `normalize_token_usage`: no count below zero, and cached tokens within the input. -/
def normalizeTokenUsage (raw : RawUsage) : TokenUsage :=
  let apiInput := max raw.apiInput 0
  let cacheRead := max raw.cacheRead 0
  let cacheCreation := max raw.cacheCreation 0
  let output := max raw.output 0
  let reasoningOutput := max raw.reasoningOutput 0
  let inputTokens :=
    if raw.inputIsCacheInclusive then apiInput
    else addI64 (addI64 apiInput cacheRead) cacheCreation
  { inputTokens := inputTokens
    cachedInputTokens := cacheRead
    cacheCreationInputTokens := cacheCreation
    outputTokens := output
    reasoningOutputTokens := reasoningOutput
    totalTokens := max (raw.apiTotal.getD (addI64 inputTokens output)) 0
    webSearchRequests := max raw.webSearchRequests 0
    webFetchRequests := max raw.webFetchRequests 0 }

/-! ## The counters of `/messages` -/

structure AnthropicCacheCreation where
  ephemeral5mInputTokens : Option Int
  ephemeral1hInputTokens : Option Int
deriving DecidableEq

structure AnthropicServerToolUsage where
  webSearchRequests : Option Int
  webFetchRequests : Option Int
deriving DecidableEq

/-- `AnthropicUsage`; `thinkingTokens` are the `output_tokens_details`. -/
structure AnthropicUsage where
  inputTokens : Option Int
  outputTokens : Option Int
  cacheReadInputTokens : Option Int
  cacheCreationInputTokens : Option Int
  cacheCreation : Option AnthropicCacheCreation
  outputTokensDetails : Option (Option Int)
  serverToolUse : Option AnthropicServerToolUsage
deriving DecidableEq

variable (usage : AnthropicUsage)

namespace AnthropicUsage

def cacheCreationTokens : Int :=
  match usage.cacheCreationInputTokens with
  | some tokens => max tokens 0
  | none =>
    match usage.cacheCreation with
    | none => 0
    | some creation =>
      addI64 (max (creation.ephemeral5mInputTokens.getD 0) 0)
        (max (creation.ephemeral1hInputTokens.getD 0) 0)

def reasoningOutputTokens : Int := max ((usage.outputTokensDetails.bind id).getD 0) 0

def toRawUsage : RawUsage where
  apiInput := usage.inputTokens.getD 0
  cacheRead := usage.cacheReadInputTokens.getD 0
  cacheCreation := usage.cacheCreationTokens
  output := usage.outputTokens.getD 0
  reasoningOutput := usage.reasoningOutputTokens
  inputIsCacheInclusive := false
  apiTotal := none
  webSearchRequests := max ((usage.serverToolUse.bind
      AnthropicServerToolUsage.webSearchRequests).getD 0) 0
  webFetchRequests := max ((usage.serverToolUse.bind
      AnthropicServerToolUsage.webFetchRequests).getD 0) 0

end AnthropicUsage

/-- The merge of two optional records, field by field when both exist. -/
def mergeOptional {α : Type} (merge : α → α → α) : Option α → Option α → Option α
  | none, new => new
  | some prev, none => some prev
  | some prev, some new => some (merge prev new)

def mergeUsage (existing : Option AnthropicUsage) (new : AnthropicUsage) : AnthropicUsage :=
  match existing with
  | none => new
  | some prev =>
    { inputTokens := new.inputTokens.or prev.inputTokens
      outputTokens := new.outputTokens.or prev.outputTokens
      cacheReadInputTokens := new.cacheReadInputTokens.or prev.cacheReadInputTokens
      cacheCreationInputTokens := new.cacheCreationInputTokens.or prev.cacheCreationInputTokens
      cacheCreation := mergeOptional (fun old new =>
            ⟨new.ephemeral5mInputTokens.or old.ephemeral5mInputTokens, new.ephemeral1hInputTokens.or
                old.ephemeral1hInputTokens⟩)
          prev.cacheCreation new.cacheCreation
      outputTokensDetails := mergeOptional (fun old new => new.or old)
          prev.outputTokensDetails new.outputTokensDetails
      serverToolUse := mergeOptional (fun old new =>
            ⟨new.webSearchRequests.or old.webSearchRequests,
              new.webFetchRequests.or old.webFetchRequests⟩)
          prev.serverToolUse new.serverToolUse }

end Codex.Sse.Usage
