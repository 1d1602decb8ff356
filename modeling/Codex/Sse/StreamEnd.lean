import Codex.Sse.GenerateContent

/-!
# The end of a Gemini stream

A stream should end once: with an error, or with a completion after a finish
reason.  The decoder keeps this for a source that fails.  A source that closes
is completed whether it sent a finish reason or not, and a source that stalls
without one is reported and completed.
-/

namespace Codex.Sse.StreamEnd

open Messages (ResponseEvent Output ApiError)
open GenerateContent List

/-! ## Ends of a stream -/

/-- An output that ends a stream. -/
def isTerminal : Output → Bool
  | .ok event => isCompletion event
  | .error _ => true

variable (chunk : GenerateContentResponse)

/-- A chunk with a finish reason in any of its candidates. -/
def carriesFinish : Bool := chunk.candidates.any fun candidate => candidate.finishReason.isSome

/-- Outputs that end once, and complete only what was finished. -/
structure EndsOnce (outputs : List Output)
    (received : List GenerateContentResponse) : Prop where
  once : ∃ before terminal, outputs = before ++ [terminal] ∧
    isTerminal terminal = true ∧ ∀ output ∈ before, isTerminal output = false
  finished : ∀ event, .ok event ∈ outputs → isCompletion event = true →
    ∃ chunk ∈ received, carriesFinish chunk = true

/-! ## Sources that are read to their end -/

/-- Whether the first candidate of a chunk is an error. -/
def fails : Bool := chunk.candidates.head?.any fun candidate =>
    !(blockedRatings candidate).isEmpty || candidate.finishReason.any fun reason =>
        (finishError candidate reason).isSome

/-- A source that closes or stalls before anything fails. -/
def ReadsOn : List SourceItem → Prop
  | [] => True
  | .chunk chunk :: rest => fails chunk = false ∧ ReadsOn rest
  | .skipped :: rest => ReadsOn rest
  | .failed _ :: _ => False
  | .idleTimeout :: _ => True

variable {chunk : GenerateContentResponse}

section Chunks

variable (env : GeminiEnvironment)

theorem onCandidate_next_isSome (state : StreamState) (candidate : Candidate) :
    (onCandidate env state candidate).next.isSome = !(!(blockedRatings candidate).isEmpty ||
        candidate.finishReason.any fun reason => (finishError candidate reason).isSome) := by
  unfold onCandidate
  cases blockedRatings candidate with
  | cons rating ratings => rfl
  | nil =>
    cases candidate.finishReason with
    | none => rfl
    | some reason =>
      simp only [Option.any_some]
      cases finishError candidate reason <;> rfl

theorem onChunk_next_isSome (state : StreamState) (chunk : GenerateContentResponse) :
    (onChunk env state chunk).next.isSome = !fails chunk := by
  obtain ⟨candidates, usage, responseId⟩ := chunk
  cases candidates with
  | nil => rfl
  | cons candidate candidates =>
    simp only [onChunk, Option.isSome_map, onCandidate_next_isSome]
    rfl

theorem onChunk_of_fails {state : StreamState} (stops : (onChunk env state chunk).next = none) :
    ∃ (events : List ResponseEvent) (error : ApiError), (onChunk env state chunk).sent =
        events.map .ok ++ [.error error] := by
  obtain ⟨candidates, usage, responseId⟩ := chunk
  have sentCreated : ∃ created : List ResponseEvent, (if state.emittedCreated then []
        else [Except.ok ResponseEvent.created] : List Output) =
        created.map .ok := by
    split
    · exact ⟨[], rfl⟩
    · exact ⟨[.created], rfl⟩
  obtain ⟨created, sentCreated⟩ := sentCreated
  cases candidates with
  | nil => cases stops
  | cons candidate candidates =>
    have stopped := Option.map_eq_none_iff.mp stops
    simp only [onChunk, sentCreated, onCandidate] at stopped ⊢
    cases blocked : blockedRatings candidate with
    | cons rating ratings => exact ⟨created, _, rfl⟩
    | nil =>
      simp only [blocked] at stopped ⊢
      cases finish : candidate.finishReason with
      | none =>
        simp only [finish] at stopped
        cases stopped
      | some reason =>
        simp only [finish] at stopped ⊢
        cases failing : finishError candidate reason with
        | none =>
          simp only [failing] at stopped
          cases stopped
        | some msg =>
          refine ⟨created ++ (onParts env state.toPartState
            (candidate.content.getD [])).2, .stream msg, ?_⟩
          simp only [failWith, map_append, append_assoc]

end Chunks

variable {source : List SourceItem}

/-! ## The whole stream -/

section Stream

variable (env : GeminiEnvironment)

theorem completes_of_readsOn (readsOn : ReadsOn source) (state : StreamState) :
    ∃ completion, isCompletion completion = true ∧
      .ok completion ∈ processFrom env state source := by
  have final : ∀ last : StreamState, (.ok (completedEvent env last) : Output) ∈
        (finalEvents env last).map .ok := by
    intro last
    simp [finalEvents]
  induction source generalizing state with
  | nil => exact ⟨_, rfl, final state⟩
  | cons item source ih =>
    cases item with
    | chunk chunk =>
      have goesOn := onChunk_next_isSome env state chunk
      rw [readsOn.1] at goesOn
      obtain ⟨next, goesOn⟩ := Option.isSome_iff_exists.mp goesOn
      obtain ⟨completion, completes, sent⟩ := ih readsOn.2 next
      refine ⟨completion, completes, ?_⟩
      rw [processFrom]
      simp only [goesOn]
      exact mem_append_right _ sent
    | skipped => exact ih readsOn state
    | failed msg => cases readsOn
    | idleTimeout => exact ⟨_, rfl, mem_append_right _ (final state)⟩

theorem isTerminal_of_chunk {state next : StreamState}
    (goesOn : (onChunk env state chunk).next = some next) :
    ∀ output ∈ (onChunk env state chunk).sent, isTerminal output = false := by
  rw [(onChunk_goesOn goesOn).1]
  intro output sent
  obtain ⟨event, listed, rfl⟩ := mem_map.mp sent
  rcases mem_append.mp listed with created | announced
  · exact created_not_isCompletion event created
  · exact isCompletion_of_isItemEvent (onParts_isItemEvent _ event announced)

theorem isTerminal_finalMessage {last : StreamState} :
    ∀ event ∈ finalMessage last, isCompletion event = false := by
  intro event listed
  unfold finalMessage at listed
  split at listed
  · cases listed
  · rw [mem_singleton.mp listed]
    rfl

theorem ends_of_not_readsOn (breaks : ¬ ReadsOn source) (state : StreamState) :
    ∃ (before : List Output) (error : ApiError),
      processFrom env state source = before ++ [.error error] ∧
        ∀ output ∈ before, isTerminal output = false := by
  induction source generalizing state with
  | nil => exact absurd trivial breaks
  | cons item source ih =>
    cases item with
    | chunk chunk =>
      rw [processFrom]
      cases goesOn : (onChunk env state chunk).next with
      | none =>
        obtain ⟨events, error, sent⟩ := onChunk_of_fails env goesOn
        refine ⟨events.map .ok, error, sent, ?_⟩
        intro output listed
        obtain ⟨event, isEvent, rfl⟩ := mem_map.mp listed
        refine onChunk_stops goesOn ?_
        rw [sent]
        exact mem_append_left _ listed
      | some next =>
        have passes := onChunk_next_isSome env state chunk
        rw [goesOn] at passes
        have later : ¬ ReadsOn source := by
          intro readsOn
          exact breaks ⟨by simpa using passes, readsOn⟩
        obtain ⟨before, error, sent, quiet⟩ := ih later next
        refine ⟨(onChunk env state chunk).sent ++ before, error, ?_, ?_⟩
        · simp only [sent, append_assoc]
        · intro output listed
          rcases mem_append.mp listed with now | then_
          · exact isTerminal_of_chunk env goesOn output now
          · exact quiet output then_
    | skipped => exact ih breaks state
    | failed msg => exact ⟨[], _, rfl, forall_mem_nil _⟩
    | idleTimeout => exact absurd trivial breaks

end Stream

/--
A stream ends once, and completes only what was finished, if and only if its
source fails, or some chunk carried a finish reason and the decoder had
captured one when the source stalled.
-/
theorem gemini_stream_ends_once_iff (env : GeminiEnvironment) (source : List SourceItem) :
    EndsOnce (processGenerateContentSse env source) (chunksOf source) ↔ (ReadsOn source →
        (∃ chunk ∈ chunksOf source, carriesFinish chunk = true) ∧
          (.idleTimeout ∈ source → lastFinish source ≠ none)) := by
  by_cases readsOn : ReadsOn source
  · obtain ⟨completion, completes, sent⟩ := completes_of_readsOn env readsOn .initial
    obtain ⟨events, last, finishes⟩ := finishes_of_completion completes sent
    have reason : last.finalStopReason = none ↔ lastFinish source = none := by
      rw [finishes.reason]
      cases lastFinish source <;> simp [StreamState.initial]
    have outputs : processGenerateContentSse env source =
        (events.map .ok ++ (stalled source last ++ (finalMessage last).map .ok)) ++
          [.ok (completedEvent env last)] := by
      refine finishes.outputs.trans ?_
      simp [finalEvents]
    have quiet : ∀ event, event ∈ events ∨ event ∈ finalMessage last →
        isCompletion event = false := by
      rintro event (announced | final)
      · exact finishes.incomplete event announced
      · exact isTerminal_finalMessage event final
    simp only [readsOn, true_implies]
    constructor
    · rintro ⟨⟨before, terminal, split, _, unended⟩, finished⟩
      refine ⟨finished completion sent completes, fun stalls uncaptured => ?_⟩
      -- The report of the stall comes before the completion.
      have reported : stalled source last = [.error (.stream "Gemini stream idle timeout")] :=
        if_pos ⟨stalls, reason.mpr uncaptured⟩
      obtain ⟨same, -⟩ := append_inj' (outputs.symm.trans split) rfl
      have listed : (.error (.stream "Gemini stream idle timeout") : Output) ∈ before := by
        rw [← same, reported]
        simp
      cases unended _ listed
    · rintro ⟨carried, captured⟩
      have unreported : stalled source last = [] := by
        refine if_neg fun stalls => ?_
        exact captured stalls.1 (reason.mp stalls.2)
      rw [unreported, nil_append, ← map_append] at outputs
      refine ⟨⟨_, _, outputs, rfl, ?_⟩, fun _ _ _ => carried⟩
      intro output listed
      obtain ⟨event, isEvent, rfl⟩ := mem_map.mp listed
      exact quiet event (mem_append.mp isEvent)
  · obtain ⟨before, error, outputs, unended⟩ := ends_of_not_readsOn env readsOn .initial
    refine ⟨fun _ readsOn' => absurd readsOn' readsOn, fun _ => ?_⟩
    refine ⟨⟨before, _, outputs, rfl, unended⟩, ?_⟩
    intro event sent completes
    have listed : .ok event ∈ before ++ [.error error] := by
      rw [← outputs]
      exact sent
    rcases mem_append.mp listed with early | last
    · have unfinished := unended _ early
      rw [isTerminal, completes] at unfinished
      cases unfinished
    · cases mem_singleton.mp last

def wordChunk : GenerateContentResponse :=
  ⟨[⟨some [⟨.text "Hello", false, none⟩], none, none, none⟩], none, some "r-1"⟩

/--
A response that is cut off is completed; one that stalls is reported and
completed.
-/
theorem cut_off_stream_is_completed :
    (¬ EndsOnce (processGenerateContentSse plainGemini [.chunk wordChunk]) [wordChunk] ∧
      (processGenerateContentSse plainGemini [.chunk wordChunk]).getLast? =
        some (.ok (.completed none "r-1" none none))) ∧
      ¬ EndsOnce (processGenerateContentSse plainGemini
          [.chunk wordChunk, .idleTimeout]) [wordChunk] ∧
      (processGenerateContentSse plainGemini [.chunk wordChunk, .idleTimeout]).filter isTerminal =
        [.error (.stream "Gemini stream idle timeout"), .ok (.completed none "r-1" none none)] := by
  have uncarried : ¬ ∃ chunk ∈ [wordChunk], carriesFinish chunk = true := by decide
  refine ⟨⟨fun ends => ?_, by decide +kernel⟩, fun ends => ?_, by decide +kernel⟩
  all_goals
    exact uncarried (ends.finished (.completed none "r-1" none none)
      (mem_of_getLast? (by decide +kernel)) rfl)

end Codex.Sse.StreamEnd
