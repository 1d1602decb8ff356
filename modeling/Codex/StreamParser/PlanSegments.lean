import Codex.StreamParser.AssistantText
import Codex.StreamParser.HiddenSpans

/-!
# Plan segments of a streamed text

What the segments of `AssistantTextStreamParser` in plan mode say does not
depend on the chunks in which a text arrives: the text outside the plan, the
text inside it and the presence of a plan are those of the whole text without
its citations.
-/

namespace Codex.StreamParser.PlanSegments

open HiddenTags TaggedLines AssistantText TaggedLineParser List

/-! ## What segments say -/

variable (segments : List ProposedPlanSegment)

def messageText : List Char := segments.flatMap ProposedPlanSegment.normalText

variable {parser : AssistantTextStreamParser} (text : List Char)
  (segments : List ProposedPlanSegment) (chunks : List (List Char))

/-! ## Marks of segments -/

def segmentMarks : ProposedPlanSegment → List (Mark PlanTag)
  | .normal text => text.map .normal
  | .proposedPlanStart => [.start .proposedPlan]
  | .proposedPlanDelta text => text.map (.inside .proposedPlan)
  | .proposedPlanEnd => [.stop .proposedPlan]

def planMarks (segments : List ProposedPlanSegment) : List (Mark PlanTag) :=
  segments.flatMap segmentMarks

@[simp]
theorem planMarks_append (more : List ProposedPlanSegment) :
    planMarks (segments ++ more) = planMarks segments ++ planMarks more := by
  simp [planMarks]

theorem planMarks_map_mapSegment (segments : List (TaggedLineSegment PlanTag)) :
    planMarks (segments.map mapSegment) = marks segments := by
  rw [planMarks, marks, flatMap_map]
  refine flatMap_congr fun segment _ => ?_
  cases segment with
  | normal text => rfl
  | tagStart tag | tagDelta tag text | tagEnd tag => cases tag; rfl

/-- The characters that marks pass outside a tag. -/
def normalCharacter : Mark PlanTag → Option Char
  | .normal char => some char
  | _ => none

theorem messageText_eq : messageText segments = (planMarks segments).filterMap normalCharacter := by
  rw [messageText, planMarks, filterMap_flatMap]
  refine flatMap_congr fun segment _ => ?_
  cases segment <;>
    simp [ProposedPlanSegment.normalText, segmentMarks, filterMap_map,
      normalCharacter, Function.comp_def]

/-! ## Segments have text -/

/-- A segment that holds text, if it is one of text. -/
def Full {τ : Type} : TaggedLineSegment τ → Prop
  | .normal text => text ≠ []
  | .tagDelta _ text => text ≠ []
  | _ => True

theorem full_pushSegment {τ : Type} [DecidableEq τ]
    {segments : List (TaggedLineSegment τ)} {segment : TaggedLineSegment τ}
    (full : ∀ segment ∈ segments, Full segment) :
    ∀ found ∈ pushSegment segments segment, Full found := by
  have shorter : ∀ found ∈ segments.dropLast, Full found :=
    fun found mem => full found (dropLast_subset _ mem)
  have joined : ∀ (front : List (TaggedLineSegment τ)) last,
      (∀ found ∈ front, Full found) → Full last → ∀ found ∈ front ++ [last], Full found := by
    intro front last isFull lastFull found mem
    rcases mem_append.mp mem with inFront | isLast
    · exact isFull found inFront
    · rw [mem_singleton.mp isLast]
      exact lastFull
  unfold pushSegment
  split
  · split
    · exact full
    · next visible =>
      rw [List.isEmpty_iff] at visible
      split
      · exact joined _ _ shorter (by simp [Full, visible])
      · exact joined _ _ full visible
  · split
    · exact full
    · next visible =>
      rw [List.isEmpty_iff] at visible
      split
      · split
        · exact joined _ _ shorter (by simp [Full, visible])
        · exact joined _ _ full visible
      · exact joined _ _ full visible
  all_goals exact joined _ _ full trivial

section Parsing

variable {τ : Type} [DecidableEq τ]

theorem full_parse {parser : TaggedLineParser τ} {delta : List Char} :
    ∀ found ∈ (parser.parse delta).2, Full found := by
  -- Every round only pushes segments.
  have round : ∀ (parsing : TaggedLineParser.Parsing τ) char,
      (∀ found ∈ parsing.segments, Full found) →
        ∀ found ∈ (parseChar parsing char).segments, Full found := by
    intro parsing char full
    unfold parseChar
    simp only
    repeat' split
    all_goals first
      | exact full
      | exact full_pushSegment full
      | exact full_pushSegment (full_pushSegment full)
  have rounds : ∀ (text : List Char) (parsing : TaggedLineParser.Parsing τ),
      (∀ found ∈ parsing.segments, Full found) →
        ∀ found ∈ (text.foldl parseChar parsing).segments, Full found := by
    intro text
    induction text with
    | nil => exact fun _ full => full
    | cons char rest ih => exact fun parsing full => ih _ (round parsing char full)
  have parsed := rounds delta ⟨parser, [], []⟩ (forall_mem_nil _)
  unfold parse
  simp only
  split
  · exact parsed
  · exact full_pushSegment parsed

theorem full_finish {parser : TaggedLineParser τ} : ∀ found ∈ parser.finish.2, Full found := by
  have none : ∀ found ∈ ([] : List (TaggedLineSegment τ)), Full found := forall_mem_nil _
  unfold finish
  simp only
  repeat' split
  all_goals first
    | exact none
    | exact full_pushSegment none
    | exact full_pushSegment (full_pushSegment none)

end Parsing

/-- A plan segment that is made of a tagged segment without empty text. -/
def FromFull (found : ProposedPlanSegment) : Prop :=
  ∃ segment, Full segment ∧ mapSegment segment = found

theorem fromFull_map {segments : List (TaggedLineSegment PlanTag)}
    (full : ∀ segment ∈ segments, Full segment) :
    ∀ found ∈ segments.map mapSegment, FromFull found :=
  forall_mem_map.mpr fun segment listed => ⟨segment, full segment listed, rfl⟩

/-! ## Chunks -/

/-- The marks that a parser makes of a text and of its end. -/
def marksOf (text : List Char) : List (Mark PlanTag) :=
  let (parser, front) := ProposedPlanParser.new.steps text
  front ++ marks parser.finish.2

def pushAll (parser : AssistantTextStreamParser) :
    List (List Char) → AssistantTextStreamParser × List ProposedPlanSegment
  | [] => (parser, [])
  | chunk :: chunks =>
    let (next, out) := parser.pushStr chunk
    let (last, rest) := pushAll next chunks
    (last, out.planSegments ++ rest)

/-- The plan segments of a text that is pushed in chunks and then finished. -/
def streamedSegments (chunks : List (List Char)) : List ProposedPlanSegment :=
  let (parser, segments) := pushAll (.new true) chunks
  segments ++ parser.finish.2.planSegments

theorem pushStr_spec (planMode : parser.planMode = true) (chunk : List Char) :
    let pushed := InlineHiddenTagParser.pushStr parser.citations chunk
    let parsed := parse parser.plan pushed.2.visibleText
    parser.pushStr chunk = (⟨true, pushed.1, parsed.1⟩, ⟨(mapSegments parsed.2).visibleText,
          pushed.2.extracted.map ExtractedInlineTag.content,
          parsed.2.map mapSegment⟩) := by
  obtain ⟨_, citations, plan⟩ := parser
  obtain rfl : _ = true := planMode
  rfl

theorem finish_spec (planMode : parser.planMode = true) :
    let visible := (InlineHiddenTagParser.finish parser.citations).2.visibleText
    let parsed := parse parser.plan visible
    parser.finish.2.planSegments = parsed.2.map mapSegment ++ parsed.1.finish.2.map mapSegment := by
  obtain ⟨_, citations, plan⟩ := parser
  obtain rfl : _ = true := planMode
  rfl

theorem pushAll_spec (planMode : parser.planMode = true) (chunks : List (List Char)) :
    let visible := (HiddenTags.pushAll parser.citations chunks).2
    (pushAll parser chunks).1.planMode = true ∧ (pushAll parser chunks).1.citations =
        (HiddenTags.pushAll parser.citations chunks).1 ∧
      (pushAll parser chunks).1.plan = (parser.plan.steps visible).1 ∧
      planMarks (pushAll parser chunks).2 = (parser.plan.steps visible).2 ∧
      ∀ segment ∈ (pushAll parser chunks).2, FromFull segment := by
  induction chunks generalizing parser with
  | nil => exact ⟨planMode, rfl, rfl, rfl, forall_mem_nil _⟩
  | cons chunk chunks ih =>
    have pushed := pushStr_spec planMode chunk
    obtain ⟨sameParser, sameMarks⟩ := parse_eq_steps
      parser.plan (parser.citations.pushStr chunk).2.visibleText
    simp only [pushAll, HiddenTags.pushAll, pushed, steps_append, planMarks_append,
      planMarks_map_mapSegment, sameMarks]
    have next : (⟨true, (parser.citations.pushStr chunk).1, (parser.plan.parse
          (parser.citations.pushStr chunk).2.visibleText).1⟩ :
        AssistantTextStreamParser).planMode = true := rfl
    obtain ⟨mode, citations, plan, rest, full⟩ := ih next
    rw [← sameParser]
    refine ⟨mode, citations, plan, congrArg _ rest, fun segment mem => ?_⟩
    rcases mem_append.mp mem with here | later
    · exact fromFull_map (full_parse) segment here
    · exact full segment later

theorem visible_eq_stripCitations :
    (HiddenTags.pushAll CitationStreamParser.new chunks).2 ++ (InlineHiddenTagParser.finish
          (HiddenTags.pushAll CitationStreamParser.new chunks).1).2.visibleText =
      (stripCitations chunks.flatten).1 := by
  have whole := HiddenSpans.visibleText_chunks citationSpec chunks
  simp only [visibleText, HiddenTags.pushAll, append_nil] at whole
  exact whole

theorem planMarks_streamedSegments :
    planMarks (streamedSegments chunks) = marksOf (stripCitations chunks.flatten).1 := by
  have isPlanMode : (AssistantTextStreamParser.new true).planMode = true := rfl
  obtain ⟨mode, citations, plan, front, -⟩ := pushAll_spec isPlanMode chunks
  have finished := finish_spec mode
  obtain ⟨sameParser, sameMarks⟩ := parse_eq_steps (pushAll (.new true) chunks).1.plan
    (InlineHiddenTagParser.finish (pushAll (.new true) chunks).1.citations).2.visibleText
  simp only [streamedSegments, finished, planMarks_append,
    planMarks_map_mapSegment, front, sameMarks, sameParser]
  rw [citations, plan, ← visible_eq_stripCitations]
  simp only [marksOf, AssistantTextStreamParser.new, steps_append, append_assoc]

theorem fromFull_streamedSegments : ∀ segment ∈ streamedSegments chunks, FromFull segment := by
  have isPlanMode : (AssistantTextStreamParser.new true).planMode = true := rfl
  obtain ⟨mode, -, -, -, full⟩ := pushAll_spec isPlanMode chunks
  intro segment mem
  rcases mem_append.mp mem with pushed | finished
  · exact full segment pushed
  · rw [finish_spec mode] at finished
    rcases mem_append.mp finished with tail | last
    · exact fromFull_map (full_parse) segment tail
    · exact fromFull_map (full_finish) segment last

end Codex.StreamParser.PlanSegments
