import Codex.Gemini.Contents
import Codex.Sse.GenerateContent
import Mathlib

/-!
# What a Gemini response leaves in the history

The history records the items that the decoder is done with.  A thinking part
leaves an item only when it is signed, a call leaves its item and, when it is
signed, the block that repeats it before that item, and text leaves nothing
until the stream ends.
-/

namespace Codex.Gemini.RecordedParts

open Contents Protocol.JsonValue Protocol.Models Sse.GenerateContent List Option
open Sse.Messages (ResponseEvent Output doneItemOf doneItems doneItems_append doneItems_map_ok)
open Tools.FlatNames

/-! ## Parts -/

/-- The call of a part that is not flagged as a thought. -/
def call? (part : Part) : Option GeminiFunctionCall :=
  if part.thought then none
  else
    match part.payload with
    | .functionCall call => some call
    | _ => none

theorem call?_eq_some_iff {part : Part} {call : GeminiFunctionCall} : call? part = some call ↔
      part.thought = false ∧ part.payload = .functionCall call := by
  unfold call?
  cases part.thought with
  | true => simp
  | false => cases part.payload <;> simp

variable (env : GeminiEnvironment) (number : Nat)

def callItems (call : GeminiFunctionCall) (signature : Option String) : List ResponseItem :=
  (signature.map (signatureItem env.counter number call)).toList ++
    [callItem env number call]

def thoughtBlock (text signature : String) : Value :=
  .object [("text", .string text), ("thoughtSignature", .string signature)]

variable (part : Part)

/-- The items of a part, where `number` calls were made before it. -/
def partItems : List ResponseItem :=
  match call? part with
  | some call => callItems env number call part.thoughtSignature
  | none =>
    if part.thought then
      (part.thoughtSignature.map fun signature =>
        reasoningItem (some (thoughtBlock part.thinkingText signature))).toList
    else []

def callsAfter : Nat := if (call? part).isSome then number + 1 else number

def partsItems (env : GeminiEnvironment) : (number : Nat) → List Part → List ResponseItem
  | _, [] => []
  | number, part :: parts =>
    partItems env number part ++ partsItems env (callsAfter number part) parts

theorem callsAfter_add (parts : List Part) :
    callsAfter number part + (parts.filterMap call?).length =
      number + ((part :: parts).filterMap call?).length := by
  unfold callsAfter
  cases called : call? part with
  | none => simp [called]
  | some call => simp [called, Nat.add_right_comm, Nat.add_assoc]

theorem partsItems_append (parts more : List Part) :
    partsItems env number (parts ++ more) = partsItems env number parts ++
        partsItems env (number + (parts.filterMap call?).length) more := by
  induction parts generalizing number with
  | nil => rfl
  | cons part parts ih => rw [cons_append, partsItems, partsItems, ih, append_assoc, callsAfter_add]

section Decoder

variable (env : GeminiEnvironment) (state : PartState) (part : Part)

theorem doneItems_onThought (thought : part.thought = true) (number : Nat) :
    doneItems ((onThought state part).2.map .ok) = partItems env number part := by
  have streamed : doneItems (((if part.thinkingText.isEmpty then []
      else (if state.emittedReasoningItem then []
        else [ResponseEvent.outputItemAdded (reasoningItem none)]) ++
          [.reasoningSummaryDelta part.thinkingText 0]) : List ResponseEvent).map .ok) = [] := by
    refine doneItems_map_ok ?_
    intro event sent
    split at sent
    · cases sent
    · rcases mem_append.mp sent with added | delta
      · split at added
        · cases added
        · cases mem_singleton.mp added
          rfl
      · cases mem_singleton.mp delta
        rfl
  simp only [onThought, map_append, doneItems_append, streamed,
    nil_append, partItems, call?, thought, if_true]
  cases part.thoughtSignature <;> rfl

theorem doneItems_onPart : doneItems ((onPart env state part).2.map .ok) =
      partItems env state.calls part := by
  unfold onPart
  split
  next thought => exact doneItems_onThought env state part thought state.calls
  next spoken =>
    have unflagged : part.thought = false := by simpa using spoken
    simp only [partItems, call?, unflagged]
    cases payload : part.payload with
    | functionCall call => cases part.thoughtSignature <;> rfl
    | text text =>
      simp only
      split
      · rfl
      · simp only [onText]
        split <;> rfl
    | _ => rfl

theorem calls_onPart : (onPart env state part).1.calls = callsAfter state.calls part := by
  unfold onPart callsAfter call?
  split
  · rfl
  · cases part.payload with
    | text text =>
      simp only
      split <;> rfl
    | _ => rfl

theorem doneItems_onParts (parts : List Part) :
    doneItems ((onParts env state parts).2.map .ok) = partsItems env state.calls parts := by
  induction parts generalizing state with
  | nil => rfl
  | cons part parts ih =>
    simp only [onParts, partsItems, map_append, doneItems_append,
      ih, doneItems_onPart, calls_onPart]

end Decoder

/-! ## Whole streams -/

def recorded (source : List SourceItem) : List ResponseItem :=
  doneItems (processGenerateContentSse env source)

def textItems (text : String) : List ResponseItem :=
  if text.isEmpty then []
  else [.message none "assistant" [.outputText text] none]

variable (env : GeminiEnvironment) (state : StreamState)

/-- Without grounding the end of a stream records the text as it is. -/
theorem doneItems_finalEvents (ungrounded : state.accumulatedGrounding.groundingChunks = []) :
    doneItems ((finalEvents env state).map .ok) = textItems state.accumulatedText := by
  unfold finalEvents finalMessage textItems
  rw [ungrounded]
  split <;> rfl

/-! ## Calls -/

def geminiCallId : String := "gemini_call_" ++ Nat.repr number

theorem geminiCallId_injective : Function.Injective geminiCallId := by
  intro first second same
  exact Nat.repr_inj.mp ((String.append_right_inj _).mp same)

variable (call : GeminiFunctionCall)

def recordedName : String := (parseFlatMcpToolName call.name).name

theorem recordedName_eq_iff : recordedName call = call.name ↔
      (parseFlatMcpToolName call.name).nameSpace = none := by
  unfold recordedName
  rcases parseFlatMcpToolName_cases call.name with
    whole | ⟨nameSpace, tool, parsed, _, spelled⟩
  · simp [whole]
  · rw [parsed]
    simp only [reduceCtorEq, iff_false]
    intro same
    have sized := congrArg String.length spelled
    rw [← same] at sized
    simp at sized

/-- The calls among some items, by id and name. -/
def callsIn (items : List ResponseItem) : List (String × String) := items.filterMap callIdAndName

@[simp]
theorem callsIn_append (items more : List ResponseItem) :
    callsIn (items ++ more) = callsIn items ++ callsIn more :=
  filterMap_append

variable (number : Nat)

@[simp]
theorem callsIn_callItems (call : GeminiFunctionCall) (signature : Option String) :
    callsIn (callItems env number call signature) =
      [(geminiCallId (env.counter.callAt number), recordedName call)] := by
  cases signature <;> rfl

theorem callsIn_partItems (part : Part) :
    callsIn (partItems env number part) = (call? part).toList.map fun call =>
        (geminiCallId (env.counter.callAt number), recordedName call) := by
  unfold partItems
  cases call? part with
  | some call => exact callsIn_callItems env number call _
  | none =>
    simp only
    split
    · cases part.thoughtSignature <;> rfl
    · rfl

theorem callsIn_partsItems (parts : List Part) :
    (callsIn (partsItems env number parts)).map Prod.fst =
      (List.range' number (parts.filterMap call?).length).map fun call =>
        geminiCallId (env.counter.callAt call) := by
  induction parts generalizing number with
  | nil => rfl
  | cons part parts ih =>
    rw [partsItems, callsIn_append, map_append, ih, callsIn_partItems, callsAfter]
    cases called : call? part with
    | none => simp [called]
    | some call => simp [called, range'_succ]

theorem callsIn_finalEvents : callsIn (doneItems ((finalEvents env state).map .ok)) = [] := by
  unfold finalEvents finalMessage
  split <;> rfl

theorem calls_onParts (state : PartState) (parts : List Part) :
    (onParts env state parts).1.calls = state.calls + (parts.filterMap call?).length := by
  induction parts generalizing state with
  | nil => rfl
  | cons part parts ih => rw [onParts, ih, calls_onPart, callsAfter_add]

theorem doneItems_created : doneItems (state.created.map .ok) = [] := by
  unfold StreamState.created
  split <;> rfl

theorem doneItems_failWith (sent : List ResponseEvent) (message : String) :
    doneItems (failWith sent message).sent = doneItems (sent.map .ok) := by
  rw [failWith, doneItems_append]
  exact append_nil _

variable {cand : Candidate}

/-- A candidate that ends the loop records the parts read before. -/
theorem doneItems_onCandidate_stops (stops : (onCandidate env state cand).next = none) :
    ∃ parts, doneItems (onCandidate env state cand).sent =
      partsItems env state.calls parts := by
  unfold onCandidate at stops ⊢
  split
  next => exact ⟨[], rfl⟩
  next allowed =>
    rw [allowed] at stops
    simp only at stops ⊢
    split
    next unfinished =>
      rw [unfinished] at stops
      cases stops
    next reason finish =>
      rw [finish] at stops
      simp only at stops ⊢
      split
      next message failing =>
        exact ⟨cand.content.getD [], by rw [doneItems_failWith, doneItems_onParts]⟩
      next passing =>
        rw [passing] at stops
        cases stops

theorem doneItems_onChunk (chunk : GenerateContentResponse) :
    ∃ parts, doneItems (onChunk env state chunk).sent = partsItems env state.calls parts ∧
      ∀ next, (onChunk env state chunk).next = some next →
        next.calls = state.calls + (parts.filterMap call?).length := by
  cases goesOn : (onChunk env state chunk).next with
  | some next =>
    obtain ⟨sent, read, _⟩ := onChunk_goesOn goesOn
    refine ⟨chunk.parts, ?_, ?_⟩
    · rw [sent, map_append, doneItems_append, doneItems_created, doneItems_onParts, nil_append]
    · intro _ same
      cases same
      rw [read, calls_onParts]
  | none =>
    obtain ⟨candidates, usage, responseId⟩ := chunk
    cases candidates with
    | nil => cases goesOn
    | cons cand candidates =>
      have stops := map_eq_none_iff.mp goesOn
      obtain ⟨parts, items⟩ := doneItems_onCandidate_stops env _ stops
      refine ⟨parts, ?_, fun _ none => by cases none⟩
      have created : doneItems (if state.emittedCreated then []
          else [Except.ok ResponseEvent.created] : List Output) = [] := by
        split <;> rfl
      exact (doneItems_append _ _).trans (congrArg₂ (· ++ ·) created items)

variable (source : List SourceItem)

theorem callsIn_processFrom :
    ∃ count, (callsIn (doneItems (processFrom env state source))).map Prod.fst =
      (List.range' state.calls count).map fun call => geminiCallId (env.counter.callAt call) := by
  induction source generalizing state with
  | nil => exact ⟨0, congrArg _ (callsIn_finalEvents env state)⟩
  | cons item source ih =>
    cases item with
    | chunk chunk =>
      obtain ⟨parts, items, counted⟩ := doneItems_onChunk env state chunk
      rw [processFrom]
      cases goesOn : (onChunk env state chunk).next with
      | none =>
        simp only [items, callsIn_partsItems]
        exact ⟨_, rfl⟩
      | some next =>
        obtain ⟨count, later⟩ := ih next
        refine ⟨(parts.filterMap call?).length + count, ?_⟩
        simp only [doneItems_append, items, callsIn_append, map_append, callsIn_partsItems, later,
          counted next goesOn]
        rw [← range'_append_1, map_append]
    | skipped => exact ih state
    | failed message => exact ⟨0, rfl⟩
    | idleTimeout =>
      refine ⟨0, ?_⟩
      rw [processFrom, doneItems_append, callsIn_append, callsIn_finalEvents]
      split <;> rfl

/-! ## Completed streams without grounding -/

/-- No chunk brings grounding metadata. -/
def Ungrounded : Prop :=
  ∀ chunk ∈ chunksOf source, ∀ cand ∈ chunk.candidates.head?,
    cand.groundingMetadata = none

variable {env : GeminiEnvironment}

theorem accumulatedGrounding_onCandidate {state next : StreamState}
    (goesOn : (onCandidate env state cand).next = some next)
    (plain : cand.groundingMetadata = none) :
    next.accumulatedGrounding = state.accumulatedGrounding := by
  unfold onCandidate at goesOn
  rw [plain] at goesOn
  split at goesOn
  · cases goesOn
  · simp only at goesOn
    split at goesOn
    · cases goesOn
      rfl
    · split at goesOn
      · cases goesOn
      · cases goesOn
        rfl

theorem accumulatedGrounding_onChunk {state next : StreamState} {chunk : GenerateContentResponse}
    (goesOn : (onChunk env state chunk).next = some next)
    (plain : ∀ cand ∈ chunk.candidates.head?, cand.groundingMetadata = none) :
    next.accumulatedGrounding = state.accumulatedGrounding := by
  obtain ⟨candidates, usage, responseId⟩ := chunk
  obtain ⟨read, readOn, rfl⟩ := map_eq_some_iff.mp goesOn
  have counted : (read.withUsage usage).accumulatedGrounding = read.accumulatedGrounding := by
    cases usage <;> rfl
  rw [counted]
  cases candidates with
  | nil =>
    cases readOn
    rfl
  | cons cand candidates =>
    have kept := accumulatedGrounding_onCandidate readOn (plain cand rfl)
    exact kept

/--
A stream that completes without grounding records the items of its parts and
then its text.
-/
theorem doneItems_of_completion {state : StreamState} {source : List SourceItem}
    {completion : ResponseEvent} (completes : isCompletion completion = true)
    (sent : .ok completion ∈ processFrom env state source)
    (before : state.accumulatedGrounding.groundingChunks = []) (plain : Ungrounded source) :
    doneItems (processFrom env state source) = partsItems env state.calls (partsOf source) ++
        textItems (onParts env state.toPartState (partsOf source)).1.accumulatedText := by
  induction source generalizing state with
  | nil => exact doneItems_finalEvents env state before
  | cons item source ih =>
    cases item with
    | chunk chunk =>
      rw [processFrom] at sent ⊢
      cases goesOn : (onChunk env state chunk).next with
      | none =>
        rw [goesOn] at sent
        rw [onChunk_stops goesOn sent] at completes
        cases completes
      | some next =>
        obtain ⟨shown, read, _⟩ := onChunk_goesOn goesOn
        have grounding := accumulatedGrounding_onChunk goesOn (plain chunk mem_cons_self)
        rw [goesOn] at sent
        have later := later_of_goesOn goesOn completes sent
        have rest := ih later (by rw [grounding]; exact before) (forall_mem_cons.mp plain).2
        have parts : partsOf (.chunk chunk :: source) = chunk.parts ++ partsOf source := rfl
        simp only [doneItems_append, shown, map_append,
          doneItems_created, doneItems_onParts, rest, parts,
          onParts_append, read, calls_onParts, nil_append]
        rw [partsItems_append, append_assoc]
    | skipped => exact ih sent before plain
    | failed message => cases mem_singleton.mp sent
    | idleTimeout =>
      rw [processFrom, doneItems_append, doneItems_finalEvents env state before]
      split <;> rfl

end Codex.Gemini.RecordedParts
