import Codex.Context.TextTruncation
import Codex.Sse.Messages
import Mathlib.Data.List.Dedup
import Mathlib.Data.List.Sort

/-!
# Decoding a Gemini stream

The model of `process_generate_content_sse` in
`codex-api/src/sse/generate_content.rs`, with the part and finish reason
vocabulary of `generate_content_wire_types.rs`.  Each chunk is a whole response
object; the decoder reads the parts of its first candidate, announces the
message and the reasoning once, and finishes the message when the stream ends.
-/

namespace Codex.Sse.GenerateContent

open Protocol.JsonValue Protocol.Models Context.TextTruncation Usage Messages List
  Tools.FlatNames

/-! ## Wire types -/

structure GeminiFunctionCall where
  name : String
  args : Option Value
deriving DecidableEq

inductive PartPayload where
  | text (text : String)
  | functionCall (call : GeminiFunctionCall)
  | functionResponse (value : Value)
  | inlineData (value : Value)
  | fileData (value : Value)
  | executableCode (value : Value)
  | codeExecutionResult (value : Value)
  | empty
  | unknown (tag : String) (raw : Value)
deriving DecidableEq

structure Part where
  payload : PartPayload
  thought : Bool
  thoughtSignature : Option String
deriving DecidableEq

inductive FinishReason where
  | stop
  | maxTokens
  | safety
  | recitation
  | language
  | other
  | blocklist
  | prohibitedContent
  | spii
  | malformedFunctionCall
  | imageSafety
  | unknown (reason : String)
deriving DecidableEq

def FinishReason.asWireStr : FinishReason → String
  | .stop => "STOP"
  | .maxTokens => "MAX_TOKENS"
  | .safety => "SAFETY"
  | .recitation => "RECITATION"
  | .language => "LANGUAGE"
  | .other => "OTHER"
  | .blocklist => "BLOCKLIST"
  | .prohibitedContent => "PROHIBITED_CONTENT"
  | .spii => "SPII"
  | .malformedFunctionCall => "MALFORMED_FUNCTION_CALL"
  | .imageSafety => "IMAGE_SAFETY"
  | .unknown reason => reason

structure GroundingChunkWeb where
  uri : String
  title : Option String
deriving DecidableEq

/-- `GroundingSupport`, with the end of its segment. -/
structure GroundingSupport where
  endIndex : Option Nat
  groundingChunkIndices : List Nat
deriving DecidableEq

/-- `GroundingMetadata`; a chunk is its web source, if it has one. -/
structure GroundingMetadata where
  groundingChunks : List (Option GroundingChunkWeb)
  groundingSupports : List GroundingSupport
deriving DecidableEq

structure SafetyRating where
  category : Option String
  blocked : Option Bool
deriving DecidableEq

/-- `UsageMetadata`, as far as it is read. -/
structure UsageMetadata where
  promptTokenCount : Option UInt32
  candidatesTokenCount : Option UInt32
  totalTokenCount : Option UInt32
  thoughtsTokenCount : Option UInt32
  cachedContentTokenCount : Option UInt32
deriving DecidableEq

/-- `Candidate`; its content is its parts. -/
structure Candidate where
  content : Option (List Part)
  finishReason : Option FinishReason
  safetyRatings : Option (List SafetyRating)
  groundingMetadata : Option GroundingMetadata
deriving DecidableEq

structure GenerateContentResponse where
  candidates : List Candidate
  usageMetadata : Option UsageMetadata
  responseId : Option String
deriving DecidableEq

/-! ## Citations -/

/-- The cited chunks in the order of their numbers, which start at one. -/
def citedChunks (chunks : Nat) (supports : List GroundingSupport) : List Nat :=
  (supports.flatMap GroundingSupport.groundingChunkIndices).foldl (fun cited index =>
      if index < chunks ∧ index ∉ cited then cited ++ [index] else cited)
    []

/-- `[1][3]` for the numbers of the chunks that a support cites. -/
def citationMarker (cited : List Nat) (support : GroundingSupport) : String :=
  let numbers := (support.groundingChunkIndices.filter (· ∈ cited)).map
    fun index => cited.idxOf index + 1
  String.join (((numbers.insertionSort (· ≤ ·)).dedup).map
    fun number => "[" ++ Nat.repr number ++ "]")

/-- Markers at the same offset, joined. -/
def mergeMarkers : List (Nat × String) → List (Nat × String)
  | [] => []
  | (offset, marker) :: rest =>
    match mergeMarkers rest with
    | (next, later) :: merged =>
      if next = offset then (offset, marker ++ later) :: merged
      else (offset, marker) :: (next, later) :: merged
    | [] => [(offset, marker)]

/--
The text with the markers put in.  The cursor counts characters; an offset
within a character falls back to its start.
-/
def insertMarkers (text : List Char) : Nat → List (Nat × String) → String
  | cursor, [] => String.ofList (text.drop cursor)
  | cursor, (offset, marker) :: rest =>
    let stop := (takeBytes offset text).length
    String.ofList ((text.take stop).drop cursor) ++ marker ++ insertMarkers text stop rest

def references (chunks : List (Option GroundingChunkWeb)) (cited : List Nat) : String :=
  String.join ((List.range cited.length).map fun pos =>
    match (chunks[cited.getD pos 0]?).join with
    | some web => "\n[" ++ Nat.repr (pos + 1) ++ "] " ++ web.title.getD "Source" ++ " — " ++ web.uri
    | none => "")

def annotateWithCitations (text : String) (grounding : GroundingMetadata) : String :=
  if grounding.groundingChunks.isEmpty ||
      grounding.groundingSupports.isEmpty then text
  else
    let supports := grounding.groundingSupports.insertionSort
      fun left right => left.endIndex.getD 0 ≤ right.endIndex.getD 0
    let cited := citedChunks grounding.groundingChunks.length supports
    let markers := (supports.map fun support =>
      (min (support.endIndex.getD text.utf8ByteSize) text.utf8ByteSize,
        citationMarker cited support)).filter fun marker => !marker.2.isEmpty
    let sorted := markers.insertionSort fun left right => left.1 ≤ right.1
    insertMarkers text.toList 0 (mergeMarkers sorted) ++
      "\n\nReferences:" ++ references grounding.groundingChunks cited

/-! ## The decoder -/

/--
`CALL_COUNTER` around a stream: how many numbers the process drew before it, and
how many other streams draw before it looks at the counter for the signature of
a call and between that and its own draw.
-/
structure CallCounter where
  start : Nat
  beforeSignature : Nat → Nat
  beforeCall : Nat → Nat

/-- How many numbers the process has drawn when the stream has made so many calls. -/
def CallCounter.drawn (counter : CallCounter) : Nat → Nat
  | 0 => counter.start
  | call + 1 => counter.drawn call + counter.beforeSignature call + counter.beforeCall call + 1

/-- `CALL_COUNTER.load`, of a counter of 64 bits. -/
def CallCounter.signatureAt (counter : CallCounter) (call : Nat) : Nat :=
  (counter.drawn call + counter.beforeSignature call) % 2 ^ 64

/-- `CALL_COUNTER.fetch_add`, which wraps around. -/
def CallCounter.callAt (counter : CallCounter) (call : Nat) : Nat :=
  (counter.drawn call + counter.beforeSignature call + counter.beforeCall call) % 2 ^ 64

def CallCounter.alone (start : Nat) : CallCounter := ⟨start, fun _ => 0, fun _ => 0⟩

/-- What the decoder depends on outside the modelled code. -/
structure GeminiEnvironment where
  codec : JsonCodec
  counter : CallCounter
  /-- `str::to_lowercase`. -/
  toLowercase : String → String
  /-- The response id made of the wall-clock time. -/
  clockId : String

/--
A decoder alone in its process at the start of the clock, for JSON constants
and ASCII finish reasons.
-/
def plainGemini : GeminiEnvironment :=
  ⟨constantCodec, .alone 0, String.toLower, "gemini-0000000000000000"⟩

/-- What one poll of the event source yields before it closes. -/
inductive SourceItem where
  | chunk (chunk : GenerateContentResponse)
  /-- Empty, final or unreadable data. -/
  | skipped
  | failed (message : String)
  | idleTimeout
deriving DecidableEq

/-- The variables that the parts change; `calls` counts function calls. -/
structure PartState where
  emittedItemAdded : Bool
  accumulatedText : String
  emittedReasoningItem : Bool
  calls : Nat

structure StreamState extends PartState where
  responseId : String
  finalUsage : Option TokenUsage
  finalStopReason : Option String
  emittedCreated : Bool
  accumulatedGrounding : GroundingMetadata

def PartState.initial : PartState := ⟨false, "", false, 0⟩

def StreamState.initial : StreamState := ⟨.initial, "", none, none, false, ⟨[], []⟩⟩

def maxAccumulatedBytes : Nat := 4 * 1024 * 1024

def Part.thinkingText (part : Part) : String :=
  match part.payload with
  | .text text => text
  | _ => ""

def reasoningItem (raw : Option Value) : ResponseItem :=
  .reasoning (some "gemini_reasoning_0") [] none none none raw

def onThought (state : PartState) (part : Part) : PartState × List ResponseEvent :=
  let text := part.thinkingText
  let streamed :=
    if text.isEmpty then []
    else
      (if state.emittedReasoningItem then []
        else [ResponseEvent.outputItemAdded (reasoningItem none)]) ++
        [.reasoningSummaryDelta text 0]
  let signed :=
    match part.thoughtSignature with
    | some signature =>
      [ResponseEvent.outputItemDone (reasoningItem (some (.object [("text", .string text),
          ("thoughtSignature", .string signature)])))]
    | none => []
  ({ state with
      emittedReasoningItem := state.emittedReasoningItem || !text.isEmpty },
    streamed ++ signed)

def onText (state : PartState) (text : String) : PartState × List ResponseEvent := ({ state with
      emittedItemAdded := true
      accumulatedText :=
        if state.accumulatedText.utf8ByteSize + text.utf8ByteSize ≤
            maxAccumulatedBytes then
          state.accumulatedText ++ text
        else state.accumulatedText },
    (if state.emittedItemAdded then []
      else [.outputItemAdded (.message none "assistant" [] none)]) ++
      [.outputTextDelta text])

variable (counter : CallCounter)

/-- The id of the reasoning item that carries the signature of a call. -/
def signatureId (call : Nat) : String := "gemini_sig_" ++ Nat.repr (counter.signatureAt call)

def signatureItem (number : Nat) (call : GeminiFunctionCall) (signature : String) : ResponseItem :=
  .reasoning (some (signatureId counter number)) [] none none none (some (.object
      [("functionCall", .object [("name", .string call.name), ("args", call.args.getD .null)]),
        ("thoughtSignature", .string signature)]))

variable (env : GeminiEnvironment)

def callItem (number : Nat) (call : GeminiFunctionCall) : ResponseItem :=
  functionCallItem ("gemini_call_" ++ Nat.repr (env.counter.callAt number)) call.name
    (match call.args with
    | some args => env.codec.toText args
    | none => "\x7b\x7d")

/-- An item that is announced and done at once. -/
def wholeItem (item : ResponseItem) : List ResponseEvent :=
  [.outputItemAdded item, .outputItemDone item]

def onFunctionCall (state : PartState) (call : GeminiFunctionCall) (signature : Option String) :
    PartState × List ResponseEvent :=
  ({ state with calls := state.calls + 1 }, (match signature with
      | some signature => wholeItem (signatureItem env.counter state.calls call signature)
      | none => []) ++
      wholeItem (callItem env state.calls call))

def onPart (state : PartState) (part : Part) : PartState × List ResponseEvent :=
  if part.thought then onThought state part
  else
    match part.payload with
    | .text text => if text.isEmpty then (state, []) else onText state text
    | .functionCall call => onFunctionCall env state call part.thoughtSignature
    | _ => (state, [])

def onParts (env : GeminiEnvironment) : PartState → List Part → PartState × List ResponseEvent
  | state, [] => (state, [])
  | state, part :: parts =>
    let (state, sent) := onPart env state part
    let (state, later) := onParts env state parts
    (state, sent ++ later)

def GroundingMetadata.supersede (before : GroundingMetadata)
    (next : GroundingMetadata) : GroundingMetadata where
  groundingChunks :=
    if next.groundingChunks.isEmpty then before.groundingChunks
    else next.groundingChunks
  groundingSupports :=
    if next.groundingSupports.isEmpty then before.groundingSupports
    else next.groundingSupports

def geminiFinishToStopReason (toLowercase : String → String) : FinishReason → String
  | .stop => "end_turn"
  | .maxTokens => "max_tokens"
  | .safety => "safety"
  | .recitation => "recitation"
  | .malformedFunctionCall => "malformed_function_call"
  | .language => "language"
  | .other => "other"
  | .blocklist => "blocklist"
  | .prohibitedContent => "prohibited_content"
  | .spii => "spii"
  | .imageSafety => "image_safety"
  | .unknown reason => toLowercase reason

variable (candidate : Candidate)

def blockedRatings : List SafetyRating :=
  (candidate.safetyRatings.getD []).filter fun rating => rating.blocked == some true

def finishError : FinishReason → Option String
  | .safety =>
    let categories := (blockedRatings candidate).filterMap
      SafetyRating.category
    if categories.isEmpty then some "Gemini response blocked: SAFETY"
    else some ("Gemini safety filter blocked response (" ++ ", ".intercalate categories ++ ")")
  | .malformedFunctionCall =>
    some ("Gemini emitted malformed function call " ++ "(likely schema mismatch)")
  | .language => some "Gemini refused: unsupported language"
  | .stop => none
  | .maxTokens => none
  | .other => none
  | .unknown _ => none
  | reason => some ("Gemini response blocked: " ++ reason.asWireStr)

/-- What a chunk sends, and the state after it unless the loop returns. -/
structure Decoded where
  sent : List Output
  next : Option StreamState

/-- Return after sending some events and an error. -/
def failWith (sent : List ResponseEvent) (message : String) : Decoded :=
  ⟨sent.map .ok ++ [.error (.stream message)], none⟩

def onCandidate (env : GeminiEnvironment) (state : StreamState)
    (candidate : Candidate) : Decoded :=
  match blockedRatings candidate with
  | rating :: _ =>
    failWith [] ("Gemini safety filter blocked response: " ++ rating.category.getD "UNKNOWN")
  | [] =>
    let (read, sent) := onParts env state.toPartState
      (candidate.content.getD [])
    let state := { state with
      toPartState := read
      accumulatedGrounding :=
        match candidate.groundingMetadata with
        | some metadata => state.accumulatedGrounding.supersede metadata
        | none => state.accumulatedGrounding }
    match candidate.finishReason with
    | none => ⟨sent.map .ok, some state⟩
    | some reason =>
      match finishError candidate reason with
      | some message => failWith sent message
      | none =>
        ⟨sent.map .ok, some { state with
          finalStopReason := some (geminiFinishToStopReason env.toLowercase reason) }⟩

/-- `RawUsage::cache_inclusive_prompt` of the counters of a chunk. -/
def UsageMetadata.toRawUsage (usage : UsageMetadata) : RawUsage where
  apiInput := (usage.promptTokenCount.getD 0).toNat
  cacheRead := (usage.cachedContentTokenCount.getD 0).toNat
  cacheCreation := 0
  output := (usage.candidatesTokenCount.getD 0).toNat
  reasoningOutput := (usage.thoughtsTokenCount.getD 0).toNat
  inputIsCacheInclusive := true
  apiTotal := some (usage.totalTokenCount.getD 0).toNat
  webSearchRequests := 0
  webFetchRequests := 0

variable (state : StreamState)

def StreamState.withUsage (usage : Option UsageMetadata) : StreamState :=
  match usage with
  | some usage => { state with finalUsage := some (normalizeTokenUsage usage.toRawUsage) }
  | none => state

def onChunk (env : GeminiEnvironment) (state : StreamState)
    (chunk : GenerateContentResponse) : Decoded :=
  let created : List Output := if state.emittedCreated then [] else [.ok .created]
  let state := { state with
    emittedCreated := true
    responseId :=
      if state.responseId.isEmpty then chunk.responseId.getD ""
      else state.responseId }
  let decoded : Decoded :=
    match chunk.candidates with
    | [] => ⟨[], some state⟩
    | candidate :: _ => onCandidate env state candidate
  ⟨created ++ decoded.sent, decoded.next.map fun state => state.withUsage chunk.usageMetadata⟩

def finalMessage : List ResponseEvent :=
  if state.accumulatedText.isEmpty then []
  else
    [.outputItemDone (.message none "assistant" [.outputText
        (if state.accumulatedGrounding.groundingChunks.isEmpty then state.accumulatedText
        else annotateWithCitations state.accumulatedText state.accumulatedGrounding)]
      none)]

def completedEvent : ResponseEvent :=
  .completed state.finalStopReason (if state.responseId.isEmpty then env.clockId
      else state.responseId)
    state.finalUsage
    (state.finalStopReason.map fun reason => reason == "end_turn")

def finalEvents : List ResponseEvent := finalMessage state ++ [completedEvent env state]

/-- `process_generate_content_sse`, from a state of its variables. -/
def processFrom (env : GeminiEnvironment) : StreamState → List SourceItem → List Output
  | state, [] => (finalEvents env state).map .ok
  | state, .chunk chunk :: rest =>
    let decoded := onChunk env state chunk
    match decoded.next with
    | some state => decoded.sent ++ processFrom env state rest
    | none => decoded.sent
  | state, .skipped :: rest => processFrom env state rest
  | _, .failed message :: _ => [.error (.stream ("Gemini SSE error: " ++ message))]
  | state, .idleTimeout :: _ =>
    (if state.finalStopReason.isNone then
        [.error (.stream "Gemini stream idle timeout")]
      else []) ++ (finalEvents env state).map .ok

variable (source : List SourceItem)

def processGenerateContentSse : List Output := processFrom env StreamState.initial source

/-! ## What a chunk does -/

def GenerateContentResponse.parts (chunk : GenerateContentResponse) : List Part :=
  (chunk.candidates.head?.bind Candidate.content).getD []

def GenerateContentResponse.finish (chunk : GenerateContentResponse) : Option FinishReason :=
  chunk.candidates.head?.bind Candidate.finishReason

/-- The event that the first chunk sends. -/
def StreamState.created : List ResponseEvent := if state.emittedCreated then [] else [.created]

variable {env : GeminiEnvironment} {state : StreamState} {next : StreamState}

theorem onCandidate_goesOn {candidate : Candidate}
    (goesOn : (onCandidate env state candidate).next = some next) :
    let read := onParts env state.toPartState (candidate.content.getD [])
    (onCandidate env state candidate).sent = read.2.map .ok ∧ next.toPartState = read.1 ∧
      next.finalStopReason = (candidate.finishReason.map (geminiFinishToStopReason
          env.toLowercase)).or state.finalStopReason := by
  unfold onCandidate at goesOn ⊢
  split
  next rating ratings blocked =>
    rw [blocked] at goesOn
    cases goesOn
  next allowed =>
    rw [allowed] at goesOn
    simp only at goesOn ⊢
    cases finish : candidate.finishReason with
    | none =>
      rw [finish] at goesOn
      cases goesOn
      exact ⟨rfl, rfl, rfl⟩
    | some reason =>
      rw [finish] at goesOn
      simp only at goesOn ⊢
      cases failing : finishError candidate reason with
      | some message =>
        rw [failing] at goesOn
        cases goesOn
      | none =>
        rw [failing] at goesOn
        cases goesOn
        exact ⟨rfl, rfl, rfl⟩

theorem onChunk_goesOn {chunk : GenerateContentResponse}
    (goesOn : (onChunk env state chunk).next = some next) :
    let read := onParts env state.toPartState chunk.parts
    (onChunk env state chunk).sent = (state.created ++ read.2).map .ok ∧ next.toPartState = read.1 ∧
      next.finalStopReason = (chunk.finish.map (geminiFinishToStopReason
          env.toLowercase)).or state.finalStopReason := by
  obtain ⟨candidates, usage, responseId⟩ := chunk
  have sentCreated : (if state.emittedCreated then []
      else [Except.ok ResponseEvent.created] : List Output) = state.created.map .ok := by
    unfold StreamState.created
    split <;> rfl
  -- The usage of a chunk is none of what is tracked.
  have counted : ∀ read : StreamState, (read.withUsage usage).toPartState = read.toPartState ∧
        (read.withUsage usage).finalStopReason = read.finalStopReason := by
    intro read
    cases usage <;> exact ⟨rfl, rfl⟩
  intro parts
  obtain ⟨read, readOn, rfl⟩ := Option.map_eq_some_iff.mp goesOn
  rw [(counted read).1, (counted read).2, map_append]
  cases candidates with
  | nil =>
    cases readOn
    exact ⟨congrArg (· ++ []) sentCreated, rfl, rfl⟩
  | cons candidate candidates =>
    obtain ⟨sent, read⟩ := onCandidate_goesOn readOn
    exact ⟨congrArg₂ (· ++ ·) sentCreated sent, read⟩

/-! ## What a whole stream does -/

def isItemEvent : ResponseEvent → Bool
  | .outputItemAdded _ => true
  | .outputItemDone _ => true
  | .outputTextDelta _ => true
  | .reasoningSummaryDelta _ _ => true
  | _ => false

theorem onThought_isItemEvent {state : PartState} {part : Part} :
    ∀ event ∈ (onThought state part).2, isItemEvent event = true := by
  intro event sent
  rcases mem_append.mp sent with streamed | signed
  · split at streamed
    · cases streamed
    · rcases mem_append.mp streamed with added | delta
      · split at added
        · cases added
        · cases mem_singleton.mp added
          rfl
      · cases mem_singleton.mp delta
        rfl
  · split at signed
    · cases mem_singleton.mp signed
      rfl
    · cases signed

theorem onPart_isItemEvent {env : GeminiEnvironment} {state : PartState} {part : Part} :
    ∀ event ∈ (onPart env state part).2, isItemEvent event = true := by
  have whole : ∀ item, ∀ event ∈ wholeItem item, isItemEvent event = true := by
    intro item event sent
    rcases mem_pair.mp sent with rfl | rfl <;> rfl
  unfold onPart
  split
  · exact onThought_isItemEvent
  · split
    · split
      · exact forall_mem_nil _
      · intro event sent
        rcases mem_append.mp sent with added | delta
        · split at added
          · cases added
          · cases mem_singleton.mp added
            rfl
        · cases mem_singleton.mp delta
          rfl
    · intro event sent
      rcases mem_append.mp sent with signed | called
      · split at signed
        · exact whole _ event signed
        · cases signed
      · exact whole _ event called
    · exact forall_mem_nil _

theorem onParts_isItemEvent {env : GeminiEnvironment} (state : PartState) {parts : List Part} :
    ∀ event ∈ (onParts env state parts).2, isItemEvent event = true := by
  induction parts generalizing state with
  | nil => exact forall_mem_nil _
  | cons part parts ih =>
    intro event sent
    rcases mem_append.mp sent with sent | sent
    · exact onPart_isItemEvent event sent
    · exact ih _ event sent

theorem onParts_append (env : GeminiEnvironment) (state : PartState) (parts more : List Part) :
    onParts env state (parts ++ more) =
      let read := onParts env state parts
      let later := onParts env read.1 more
      (later.1, read.2 ++ later.2) := by
  induction parts generalizing state with
  | nil => rfl
  | cons part parts ih => simp only [cons_append, onParts, ih, append_assoc]

theorem created_not_isItemEvent (state : StreamState) : state.created.filter isItemEvent = [] := by
  unfold StreamState.created
  split <;> rfl

def isCompletion : ResponseEvent → Bool
  | .completed _ _ _ _ => true
  | _ => false

variable {event : ResponseEvent}

theorem isCompletion_of_isItemEvent
    (item : isItemEvent event = true) : isCompletion event = false := by
  cases event with
  | completed => cases item
  | _ => rfl

theorem created_not_isCompletion {state : StreamState} :
    ∀ event ∈ state.created, isCompletion event = false := by
  intro event sent
  unfold StreamState.created at sent
  split at sent
  · cases sent
  · cases mem_singleton.mp sent
    rfl

theorem onChunk_stops {chunk : GenerateContentResponse}
    (stops : (onChunk env state chunk).next = none)
    (sent : .ok event ∈ (onChunk env state chunk).sent) : isCompletion event = false := by
  have failing : ∀ (events : List ResponseEvent) (message : String),
      (∀ event ∈ events, isItemEvent event = true) →
      .ok event ∈ (failWith events message).sent → isCompletion event = false := by
    intro events message items sent
    have listed : event ∈ events := by simpa [failWith] using sent
    exact isCompletion_of_isItemEvent (items event listed)
  obtain ⟨candidates, usage, responseId⟩ := chunk
  cases candidates with
  | nil => cases stops
  | cons candidate candidates =>
    rcases mem_append.mp sent with created | sent
    · split at created
      · cases created
      · cases mem_singleton.mp created
        rfl
    · have stopped := Option.map_eq_none_iff.mp stops
      simp only [onCandidate] at sent stopped
      split at sent
      · exact failing [] _ (forall_mem_nil _) sent
      next allowed =>
        simp only [allowed] at stopped
        split at sent
        next finish =>
          simp only [finish] at stopped
          cases stopped
        next reason finish =>
          simp only [finish] at stopped
          split at sent
          · exact failing _ _ (onParts_isItemEvent _) sent
          next passing =>
            simp only [passing] at stopped
            cases stopped

/-- The chunks that are read before the source closes or stalls. -/
def chunksOf : List SourceItem → List GenerateContentResponse
  | .chunk chunk :: rest => chunk :: chunksOf rest
  | .skipped :: rest => chunksOf rest
  | _ => []

def partsOf : List Part := (chunksOf source).flatMap GenerateContentResponse.parts

/-- The finish reason that a stream ends with. -/
def lastFinish : Option FinishReason :=
  ((chunksOf source).filterMap GenerateContentResponse.finish).getLast?

theorem lastFinish_chunk (chunk : GenerateContentResponse) (source : List SourceItem) :
    lastFinish (.chunk chunk :: source) = (lastFinish source).or chunk.finish := by
  unfold lastFinish
  rw [chunksOf]
  cases finish : chunk.finish with
  | none =>
    rw [filterMap_cons_none finish]
    exact (Option.or_none).symm
  | some reason =>
    rw [filterMap_cons_some finish, getLast?_cons]
    cases (List.filterMap GenerateContentResponse.finish (chunksOf source)).getLast? <;> rfl

/-- What a stalled source sends before the final events. -/
def stalled (last : StreamState) : List Output :=
  if .idleTimeout ∈ source ∧ last.finalStopReason = none then
    [.error (.stream "Gemini stream idle timeout")]
  else []

/--
A stream that ends with its final events: it announces what its parts
announce, and ends with the state that they leave.
-/
structure Finishes (env : GeminiEnvironment) (state : StreamState)
    (source : List SourceItem) (events : List ResponseEvent)
    (last : StreamState) : Prop where
  outputs : processFrom env state source = events.map .ok ++
      (stalled source last ++ (finalEvents env last).map .ok)
  incomplete : ∀ event ∈ events, isCompletion event = false
  announced : events.filter isItemEvent = (onParts env state.toPartState (partsOf source)).2
  parts : last.toPartState = (onParts env state.toPartState (partsOf source)).1
  reason : last.finalStopReason = ((lastFinish source).map (geminiFinishToStopReason
      env.toLowercase)).or state.finalStopReason

variable {source : List SourceItem}

theorem Finishes.chunk {env : GeminiEnvironment}
    {state next last : StreamState} {chunk : GenerateContentResponse} {events : List ResponseEvent}
    (goesOn : (onChunk env state chunk).next = some next)
    (finishes : Finishes env next source events last) :
    Finishes env state (.chunk chunk :: source) (state.created ++
        (onParts env state.toPartState chunk.parts).2 ++ events)
      last := by
  obtain ⟨sent, parts, reason⟩ := onChunk_goesOn goesOn
  have read : onParts env state.toPartState (partsOf (.chunk chunk :: source)) =
        ((onParts env next.toPartState (partsOf source)).1,
          (onParts env state.toPartState chunk.parts).2 ++
            (onParts env next.toPartState (partsOf source)).2) := by
    rw [parts]
    exact onParts_append env state.toPartState chunk.parts _
  refine ⟨?_, ?_, ?_, ?_, ?_⟩
  · have same : stalled (.chunk chunk :: source) last = stalled source last := by simp [stalled]
    rw [processFrom]
    simp only [goesOn, sent]
    rw [finishes.outputs, same]
    simp only [map_append, append_assoc]
  · intro event listed
    rcases mem_append.mp listed with now | later
    · rcases mem_append.mp now with created | announced
      · exact created_not_isCompletion event created
      · exact isCompletion_of_isItemEvent (onParts_isItemEvent _ event announced)
    · exact finishes.incomplete event later
  · have kept : (onParts env state.toPartState chunk.parts).2.filter isItemEvent =
          (onParts env state.toPartState chunk.parts).2 :=
      filter_eq_self.mpr (onParts_isItemEvent _)
    rw [read, filter_append, filter_append,
      created_not_isItemEvent, kept, finishes.announced, nil_append]
  · rw [read, finishes.parts]
  · rw [finishes.reason, reason, lastFinish_chunk]
    cases lastFinish source <;> rfl

variable {completion : ResponseEvent}

/-- A completion is not among what a chunk sends that the stream goes on after. -/
theorem later_of_goesOn {chunk : GenerateContentResponse}
    (goesOn : (onChunk env state chunk).next = some next)
    (completes : isCompletion completion = true)
    (sent : .ok completion ∈ (onChunk env state chunk).sent ++ processFrom env next source) :
    .ok completion ∈ processFrom env next source := by
  refine (mem_append.mp sent).resolve_left fun now => ?_
  rw [(onChunk_goesOn goesOn).1] at now
  have listed : completion ∈ state.created ++ (onParts env state.toPartState chunk.parts).2 := by
    simpa using now
  rcases mem_append.mp listed with created | announced
  · rw [created_not_isCompletion _ created] at completes
    cases completes
  · rw [isCompletion_of_isItemEvent (onParts_isItemEvent _ _ announced)] at completes
    cases completes

theorem finishes_of_completion (completes : isCompletion completion = true)
    (sent : .ok completion ∈ processFrom env state source) :
    ∃ events last, Finishes env state source events last := by
  induction source generalizing state with
  | nil =>
    refine ⟨[], state, ?_, forall_mem_nil _, rfl, rfl, rfl⟩
    simp [processFrom, stalled]
  | cons item source ih =>
    cases item with
    | chunk chunk =>
      rw [processFrom] at sent
      cases goesOn : (onChunk env state chunk).next with
      | none =>
        rw [goesOn] at sent
        rw [onChunk_stops goesOn sent] at completes
        cases completes
      | some next =>
        rw [goesOn] at sent
        obtain ⟨events, last, finishes⟩ := ih (later_of_goesOn goesOn completes sent)
        exact ⟨_, last, finishes.chunk goesOn⟩
    | skipped =>
      obtain ⟨events, last, finishes⟩ := ih sent
      have same : stalled (.skipped :: source) last = stalled source last := by simp [stalled]
      exact ⟨events, last, by rw [same]; exact finishes.outputs,
        finishes.incomplete, finishes.announced, finishes.parts,
        finishes.reason⟩
    | failed message => cases mem_singleton.mp sent
    | idleTimeout =>
      refine ⟨[], state, ?_, forall_mem_nil _, rfl, rfl, rfl⟩
      simp [processFrom, stalled]

end Codex.Sse.GenerateContent
