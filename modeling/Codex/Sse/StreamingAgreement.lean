import Codex.Sse.Messages
import Codex.Sse.ResponseProjection
import Mathlib.Algebra.Order.BigOperators.Group.List

/-!
# Streamed and whole responses

A provider may deliver the same assistant message as one JSON value or as a
stream of deltas.  This module states what it means to stream a message: each
block in order, its text cut into deltas in any way, with events that carry no
content anywhere in between.  The items of the stream are those of the whole
message exactly when no text block is empty.
-/

namespace Codex.Sse.StreamingAgreement

open Protocol.JsonValue Protocol.Models Messages ResponseProjection WireTypes List
  Tools.FlatNames

/-! ## Assistant messages -/

inductive AssistantBlock where
  | text (text : String)
  | toolUse (id name : String) (input : Value)
  | thinking (thinking signature : String)
  | redactedThinking (data : String)
deriving DecidableEq

/-- The JSON form of a block; a missing signature is an empty one. -/
def AssistantBlock.Describes (value : Value) : AssistantBlock → Prop
  | .text content => value.getStr "type" = some "text" ∧ value.getStr "text" = some content
  | .toolUse id name input =>
    value.getStr "type" = some "tool_use" ∧
      value.getStr "id" = some id ∧ value.getStr "name" = some name ∧
      value.get "input" = some input ∧ input.isObject = true
  | .thinking content signature =>
    value.getStr "type" = some "thinking" ∧ value.getStr "thinking" = some content ∧
      (value.getStr "signature").getD "" = signature
  | .redactedThinking data =>
    value.getStr "type" = some "redacted_thinking" ∧ value.getStr "data" = some data

variable (codec : JsonCodec)

/-- Arguments as JSON, with the empty text read as the empty object. -/
def readArguments (args : String) : Option Value :=
  if args.isEmpty then some .emptyObject
  else codec.fromStr args

def readItem : ResponseItem → ResponseItem × Option Value
  | .functionCall id name nameSpace args callId =>
    (.functionCall id name nameSpace "" callId,
      readArguments codec args)
  | item => (item, none)

/-- Inputs whose text form reads back, as that of `serde_json` does. -/
def AssistantBlock.Readable : AssistantBlock → Prop
  | .toolUse _ _ input => readArguments codec (codec.toText input) = some input
  | _ => True

/-! ## Streams of a message -/

def thinkingPart : ContentBlockDelta → Option String
  | .thinkingDelta thinking => some thinking
  | _ => none

def signaturePart : ContentBlockDelta → Option String
  | .signatureDelta signature => some signature
  | _ => none

/-- The start payload and the deltas that deliver a block. -/
inductive StreamedAs (codec : JsonCodec) :
    AssistantBlock → ContentBlock → List ContentBlockDelta → Prop where
  | text (text initial : String) (parts : List String) (whole : String.join parts = text) :
      StreamedAs codec (.text text) (.text initial) (parts.map .textDelta)
  | toolUse (id name : String) (input initial : Value) (parts : List String)
      (whole : readArguments codec (String.join parts) = some input) :
      StreamedAs codec (.toolUse id name input)
        (.toolUse id name initial) (parts.map .inputJsonDelta)
  | thinking (thinking signature initial : String) (deltas : List ContentBlockDelta)
      (kinds : ∀ delta ∈ deltas, (thinkingPart delta).isSome ∨ (signaturePart delta).isSome)
      (thinkingWhole : String.join (deltas.filterMap thinkingPart) = thinking)
      (signatureWhole : String.join (deltas.filterMap signaturePart) = signature) :
      StreamedAs codec (.thinking thinking signature) (.thinking initial) deltas
  | redactedThinking (data : String) : StreamedAs codec (.redactedThinking data)
        (.redactedThinking data) []

structure StreamedBlock (codec : JsonCodec) where
  block : AssistantBlock
  index : UInt64
  start : ContentBlock
  deltas : List ContentBlockDelta
  streamed : StreamedAs codec block start deltas

variable {codec : JsonCodec}

def StreamedBlock.events (streamed : StreamedBlock codec) : List SourceItem :=
  .event (.contentBlockStart streamed.index streamed.start) :: (streamed.deltas.map fun delta =>
      SourceItem.event (.contentBlockDelta streamed.index delta)) ++
    [.event (.contentBlockStop streamed.index)]

/-- Source items without content, which may stand anywhere in a stream. -/
def isQuiet : SourceItem → Bool
  | .skipped => true
  | .event .ping => true
  | .event (.messageDelta _ _) => true
  | .event (.unknown _ _) => true
  | _ => false

/-- A source that streams the given blocks. -/
def Streams (source : List SourceItem) (start : MessageStartPayload)
    (blocks : List (StreamedBlock codec)) : Prop :=
  source.filter (fun item => !isQuiet item) =
    .event (.messageStart start) :: blocks.flatMap StreamedBlock.events ++ [.event .messageStop]

/-! ## The items of a stream -/

variable (env : StreamEnvironment) (index : UInt64)

theorem doneRun_filter_quiet (blocks : BlockTracker) (source : List SourceItem) :
    doneRun env blocks source = doneRun env blocks (source.filter fun item => !isQuiet item) := by
  induction source generalizing blocks with
  | nil => rfl
  | cons item rest ih =>
    by_cases quiet : isQuiet item = true
    · have passes : isFinal item = false ∧ doneBy env.toJsonCodec blocks item = [] ∧
          blocksAfter env blocks item = blocks := by
        cases item with
        | event event =>
          cases event <;>
            simp_all [isQuiet, isFinal, doneBy, blocksAfter]
        | _ => simp_all [isQuiet, isFinal, doneBy, blocksAfter]
      obtain ⟨goesOn, nothing, unchanged⟩ := passes
      simp [doneRun, quiet, goesOn, nothing, unchanged, ih]
    · simp [doneRun, quiet, ih]

/-- A block after some deltas; deltas of another kind are ignored. -/
def afterDeltas (index : UInt64) (block : BlockState)
    (deltas : List ContentBlockDelta) : BlockState :=
  deltas.foldl (fun block delta => ((deltaState index block delta).map Prod.fst).getD block) block

theorem doneRun_deltas (block : BlockState) (deltas : List ContentBlockDelta)
    (rest : List SourceItem) :
    doneRun env (AList.singleton index block) ((deltas.map fun delta =>
          SourceItem.event (.contentBlockDelta index delta)) ++ rest) =
      doneRun env (AList.singleton index (afterDeltas index block deltas))
        rest := by
  induction deltas generalizing block with
  | nil => rfl
  | cons delta deltas ih =>
    have found : (AList.singleton index block : BlockTracker).lookup index = some block := by
      rw [← AList.insert_empty, AList.lookup_insert]
    have after : blocksAfter env (AList.singleton index block)
          (.event (.contentBlockDelta index delta)) =
        AList.singleton index (((deltaState index block delta).map Prod.fst).getD block) := by
      cases applied : deltaState index block delta <;>
        simp [blocksAfter, found, applied]
    simp only [map_cons, cons_append, doneRun, isFinal,
      Bool.false_eq_true, if_false, doneBy, nil_append, after,
      ih]
    rfl

theorem doneRun_block {streamed : StreamedBlock env.toJsonCodec} {state : BlockState}
    (started : startedState env streamed.start = some state) (rest : List SourceItem) :
    doneRun env ∅ (streamed.events ++ rest) = (doneItem env.toJsonCodec
        (afterDeltas streamed.index state streamed.deltas)).toList ++
        doneRun env ∅ rest := by
  set final := afterDeltas streamed.index state streamed.deltas
  have found : (AList.singleton streamed.index final :
      BlockTracker).lookup streamed.index = some final := by
    rw [← AList.insert_empty, AList.lookup_insert]
  have erased : (AList.singleton streamed.index final : BlockTracker).erase streamed.index = ∅ := by
    apply AList.ext
    exact kerase_cons_eq rfl
  have stopped : doneRun env (AList.singleton streamed.index final)
        (.event (.contentBlockStop streamed.index) :: rest) =
      (doneItem env.toJsonCodec final).toList ++ doneRun env ∅ rest := by
    simp [doneRun, isFinal, doneBy, blocksAfter, found, erased]
  have opened : blocksAfter env ∅ (.event (.contentBlockStart streamed.index streamed.start)) =
      AList.singleton streamed.index state := by
    simp [blocksAfter, started]
  simp only [StreamedBlock.events, cons_append, append_assoc,
    nil_append, doneRun, isFinal, Bool.false_eq_true, if_false,
    doneBy, opened]
  rw [doneRun_deltas, stopped]

/-! ## Deltas add up -/

theorem afterDeltas_cons {block : BlockState} {delta : ContentBlockDelta}
    (deltas : List ContentBlockDelta) {next : BlockState} {report : Option ResponseEvent}
    (applied : deltaState index block delta = some (next, report)) :
    afterDeltas index block (delta :: deltas) = afterDeltas index next deltas := by
  simp [afterDeltas, applied]

theorem afterDeltas_parts (block : String → BlockState) (delta : String → ContentBlockDelta)
    (applied : ∀ text part, ∃ report,
      deltaState index (block text) (delta part) = some (block (text ++ part), report))
    (text : String) (parts : List String) :
    afterDeltas index (block text) (parts.map delta) = block (text ++ String.join parts) := by
  induction parts generalizing text with
  | nil => simp [afterDeltas]
  | cons part parts ih =>
    obtain ⟨_, step⟩ := applied text part
    rw [map_cons, afterDeltas_cons _ _ step, ih, String.join_cons, String.append_assoc]

theorem afterDeltas_thinking (thinking signature : String) {deltas : List ContentBlockDelta}
    (kinds : ∀ delta ∈ deltas, (thinkingPart delta).isSome ∨ (signaturePart delta).isSome) :
    afterDeltas index (.thinking thinking signature) deltas = .thinking
        (thinking ++ String.join (deltas.filterMap thinkingPart))
        (signature ++ String.join (deltas.filterMap signaturePart)) := by
  induction deltas generalizing thinking signature with
  | nil => simp [afterDeltas]
  | cons delta deltas ih =>
    have rest : ∀ later ∈ deltas, (thinkingPart later).isSome ∨ (signaturePart later).isSome :=
      (forall_mem_cons.mp kinds).2
    have here := kinds delta (by simp)
    cases delta with
    | thinkingDelta part =>
      have thinkingParts : (.thinkingDelta part :: deltas).filterMap thinkingPart =
            part :: deltas.filterMap thinkingPart := rfl
      have signatureParts : (.thinkingDelta part :: deltas).filterMap signaturePart =
            deltas.filterMap signaturePart := rfl
      rw [afterDeltas_cons _ _ rfl, ih _ _ rest, thinkingParts, signatureParts, String.join_cons,
        String.append_assoc]
    | signatureDelta part =>
      have thinkingParts : (.signatureDelta part :: deltas).filterMap thinkingPart =
            deltas.filterMap thinkingPart := rfl
      have signatureParts : (.signatureDelta part :: deltas).filterMap signaturePart =
            part :: deltas.filterMap signaturePart := rfl
      rw [afterDeltas_cons _ _ rfl, ih _ _ rest, thinkingParts, signatureParts, String.join_cons,
        String.append_assoc]
    | _ => simp [thinkingPart, signaturePart] at here

/-! ## Both decoders block by block -/

/-- What a streamed block yields, with the arguments of a call read. -/
def emitted : AssistantBlock → List (ResponseItem × Option Value)
  | .text text => [(textItem text, none)]
  | .toolUse id name input => [(functionCallItem id name "", some input)]
  | .thinking thinking signature =>
    if thinking.isEmpty then []
    else [(thinkingItem thinking signature, none)]
  | .redactedThinking data => [(redactedThinkingItem data, none)]

/-- What a block of a whole message yields. -/
def projected (block : AssistantBlock) : List (ResponseItem × Option Value) :=
  if block = .text "" then [] else emitted block

theorem doneRun_streamedBlock (streamed : StreamedBlock env.toJsonCodec) (rest : List SourceItem) :
    (doneRun env ∅ (streamed.events ++ rest)).map (readItem env.toJsonCodec) =
      emitted streamed.block ++ (doneRun env ∅ rest).map (readItem env.toJsonCodec) := by
  obtain ⟨block, index, start, deltas, way⟩ := streamed
  cases way with
  | text text initial parts whole =>
    rw [doneRun_block env rfl, afterDeltas_parts _ .text .textDelta fun _ _ => ⟨_, rfl⟩, whole]
    simp [doneItem, emitted, readItem, textItem]
  | toolUse id name input initial parts whole =>
    rw [doneRun_block env rfl,
      afterDeltas_parts _ (.toolUse id name) .inputJsonDelta fun _ _ => ⟨_, rfl⟩]
    simp [doneItem, emitted, readItem, functionCallItem, whole]
  | thinking thinking signature initial deltas kinds thinkingWhole signatureWhole =>
      rw [doneRun_block env rfl, afterDeltas_thinking index "" "" kinds, thinkingWhole,
        signatureWhole]
      by_cases empty : thinking.isEmpty = true <;>
        simp_all [doneItem, emitted, readItem, thinkingItem]
  | redactedThinking data =>
    rw [doneRun_block env rfl]
    simp [afterDeltas, doneItem, emitted, readItem, redactedThinkingItem]

theorem doneRun_streamedBlocks (blocks : List (StreamedBlock env.toJsonCodec)) :
    (doneRun env ∅ (blocks.flatMap StreamedBlock.events ++ [.event .messageStop])).map
        (readItem env.toJsonCodec) =
      blocks.flatMap fun streamed => emitted streamed.block := by
  induction blocks with
  | nil => rfl
  | cons streamed blocks ih =>
    rw [flatMap_cons, append_assoc, doneRun_streamedBlock, ih, flatMap_cons]

theorem projectBlock_described {value : Value} {block : AssistantBlock}
    (described : block.Describes value) (readable : block.Readable codec) :
    (projectBlock codec value).map (readItem codec) = projected block := by
  cases block with
  | text text =>
    obtain ⟨kind, content⟩ := described
    by_cases empty : text = "" <;>
      simp [projectBlock, projectText, fieldOrEmpty, kind, content,
        empty, projected, emitted, readItem, textItem]
  | toolUse id name input =>
    obtain ⟨kind, idField, nameField, inputField, _⟩ := described
    simp only [AssistantBlock.Readable] at readable
    simp [projectBlock, projectToolUse, fieldOrEmpty, kind, idField,
      nameField, inputField, projected, emitted, readItem,
      functionCallItem, readable]
  | thinking thinking signature =>
    obtain ⟨kind, content, signed⟩ := described
    by_cases empty : thinking = "" <;>
      simp [projectBlock, projectThinking, fieldOrEmpty, kind, content,
        signed, empty, projected, emitted, readItem, thinkingItem,
        thinkingBlock]
  | redactedThinking data =>
    obtain ⟨kind, content⟩ := described
    simp [projectBlock, projectRedactedThinking, fieldOrEmpty, kind,
      content, projected, emitted, readItem, redactedThinkingItem]

theorem projectBlocks_described {values : List Value} {blocks : List AssistantBlock}
    (described : Forall₂ (fun value block => block.Describes value) values blocks)
    (readable : ∀ block ∈ blocks, block.Readable codec) :
    (values.flatMap (projectBlock codec)).map (readItem codec) = blocks.flatMap projected := by
  induction described with
  | nil => rfl
  | cons head tail ih =>
    rw [flatMap_cons, map_append, flatMap_cons, projectBlock_described head (readable _ (by simp)),
      ih (forall_mem_cons.mp readable).2]

/-- The two lists of items are equal exactly without empty texts. -/
theorem flatMap_emitted_eq_projected_iff (blocks : List AssistantBlock) :
    blocks.flatMap emitted = blocks.flatMap projected ↔ ∀ block ∈ blocks, block ≠ .text "" := by
  constructor
  · intro same
    by_contra emptyText
    push Not at emptyText
    obtain ⟨block, mem, rfl⟩ := emptyText
    have shorter : ∀ block : AssistantBlock, (projected block).length ≤ (emitted block).length := by
      intro block
      unfold projected
      split <;> simp
    have lengths : (blocks.flatMap projected).length < (blocks.flatMap emitted).length := by
      rw [length_flatMap, length_flatMap]
      exact sum_lt_sum _ _ (fun block _ => shorter block)
        ⟨.text "", mem, by simp [projected, emitted]⟩
    rw [same] at lengths
    exact absurd lengths (Nat.lt_irrefl _)
  · intro nonempty
    apply flatMap_congr
    intro block mem
    simp [projected, nonempty block mem]

/--
For every message and every way of streaming it, the streamed items are those
of the whole message exactly when no text block is empty.
-/
theorem streamed_items_eq_projected_iff (env : StreamEnvironment)
    (message : Value) (values : List Value)
    (blocks : List (StreamedBlock env.toJsonCodec))
    (start : MessageStartPayload) (source : List SourceItem)
    (content : message.get "content" = some (.array values))
    (described : List.Forall₂ (fun value block => block.Describes value)
      values (blocks.map StreamedBlock.block))
    (readable : ∀ streamed ∈ blocks, streamed.block.Readable env.toJsonCodec)
    (streams : Streams source start blocks) :
    (doneItems (processMessagesSse env source)).map (readItem env.toJsonCodec) =
        (projectAnthropicAssistantMessage env.toJsonCodec message).map (readItem env.toJsonCodec) ↔
      ∀ streamed ∈ blocks, streamed.block ≠ .text "" := by
  have streamedItems : (doneItems (processMessagesSse env source)).map (readItem env.toJsonCodec) =
        (blocks.map StreamedBlock.block).flatMap emitted := by
    rw [processMessagesSse, doneItems_processFrom, doneRun_filter_quiet,
      streams, flatMap_map, ← doneRun_streamedBlocks]
    rfl
  have wholeItems : (projectAnthropicAssistantMessage env.toJsonCodec
          message).map (readItem env.toJsonCodec) =
        (blocks.map StreamedBlock.block).flatMap projected := by
    rw [projectAnthropicAssistantMessage, content]
    exact projectBlocks_described
      described (by simpa using readable)
  rw [streamedItems, wholeItems, flatMap_emitted_eq_projected_iff]
  simp

def sampleSource : List SourceItem :=
  [.event (.messageStart ⟨some "msg", none, none⟩), .event .ping,
    .event (.contentBlockStart 0 (.toolUse "call" "run" .emptyObject)),
    .event (.contentBlockDelta 0 (.inputJsonDelta "\x7b")),
    .event .ping,
    .event (.contentBlockDelta 0 (.inputJsonDelta "\x7d")),
    .event (.contentBlockStop 0), .event .messageStop]

/-- The streamed tool call is the one of the whole message. -/
theorem streamed_items_eq_projected_sample :
    (doneItems (processMessagesSse constantEnvironment sampleSource)).map (readItem constantCodec) =
      (projectAnthropicAssistantMessage constantCodec (.object [("content", .array
          [.object [("type", .string "tool_use"), ("id", .string "call"), ("name", .string "run"),
            ("input", .emptyObject)]])])).map
        (readItem constantCodec) := by
  refine (streamed_items_eq_projected_iff constantEnvironment _ _
    [⟨.toolUse "call" "run" .emptyObject, 0, .toolUse "call" "run" .emptyObject, _,
      .toolUse "call" "run" .emptyObject .emptyObject ["\x7b", "\x7d"] (by decide)⟩]
    ⟨some "msg", none, none⟩ sampleSource rfl ?_ ?_ ?_).mpr (by simp)
  · refine Forall₂.cons ?_ Forall₂.nil
    simp [AssistantBlock.Describes]
    decide
  · simp only [mem_singleton, forall_eq, AssistantBlock.Readable]
    decide
  · simp [Streams, sampleSource, isQuiet, StreamedBlock.events]

/-- An empty text block is streamed as an item but not projected as one. -/
theorem streamed_empty_text_differs : doneItems (processMessagesSse constantEnvironment
        [.event (.messageStart ⟨some "msg", none, none⟩), .event (.contentBlockStart 0 (.text "")),
          .event (.contentBlockStop 0), .event .messageStop]) =
      [.message none "assistant" [.outputText ""] none] ∧
    projectAnthropicAssistantMessage constantCodec (.object [("content", .array
          [.object [("type", .string "text"), ("text", .string "")]])]) = [] := by
  decide

end Codex.Sse.StreamingAgreement
