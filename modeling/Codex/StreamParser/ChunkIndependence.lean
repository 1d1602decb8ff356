import Codex.StreamParser.PlanSegments
import Codex.StreamParser.TaggedBlocks

/-!
# Assistant text does not depend on its chunks

A message that is pushed in chunks and then finished gives the visible text,
the citations and, up to joining adjacent text, the plan segments that it gives
in one chunk.  The visible text is the message without its citations and, in
plan mode, without its plan blocks.
-/

namespace Codex.StreamParser.ChunkIndependence

open AssistantText HiddenSpans HiddenTags PlanSegments TaggedBlocks List
  TaggedLines

/-! ## What a streamed message gives -/

def append (first second : AssistantTextChunk) : AssistantTextChunk where
  visibleText := first.visibleText ++ second.visibleText
  citations := first.citations ++ second.citations
  planSegments := first.planSegments ++ second.planSegments

def pushChunks (parser : AssistantTextStreamParser) :
    List (List Char) → AssistantTextStreamParser × AssistantTextChunk
  | [] => (parser, .empty)
  | chunk :: chunks =>
    let (next, out) := parser.pushStr chunk
    let (last, rest) := pushChunks next chunks
    (last, append out rest)

/-- What a message gives that is pushed in chunks and then finished. -/
def streamed (planMode : Bool) (chunks : List (List Char)) : AssistantTextChunk :=
  let (parser, out) := pushChunks (.new planMode) chunks
  append out parser.finish.2

/-- Put text before segments, joining it to text that comes first. -/
def joinNormal (text : List Char) : List ProposedPlanSegment → List ProposedPlanSegment
  | .normal more :: others => .normal (text ++ more) :: others
  | others => .normal text :: others

/-- Put plan text before segments, joining it to plan text that comes first. -/
def joinDelta (text : List Char) : List ProposedPlanSegment → List ProposedPlanSegment
  | .proposedPlanDelta more :: others => .proposedPlanDelta (text ++ more) :: others
  | others => .proposedPlanDelta text :: others

/-- Plan segments with adjacent texts of one kind joined. -/
def joinSegments : List ProposedPlanSegment → List ProposedPlanSegment
  | [] => []
  | .normal text :: rest => joinNormal text (joinSegments rest)
  | .proposedPlanDelta text :: rest => joinDelta text (joinSegments rest)
  | segment :: rest => segment :: joinSegments rest

/-- The message without its citations and, in plan mode, its plan blocks. -/
def visibleSpec (planMode : Bool) (text : List Char) : List Char :=
  let uncited := removeSpans citationSpec text
  if planMode then removeBlocks planSpec uncited else uncited

/-! ## Citations -/

variable (parser : AssistantTextStreamParser) (chunks : List (List Char))

theorem pushChunks_spec : (pushChunks parser chunks).1.planMode = parser.planMode ∧
      (pushChunks parser chunks).1.citations = (HiddenTags.pushAll parser.citations chunks).1 ∧
      (pushChunks parser chunks).2.citations = extractAll parser.citations chunks ∧
      (pushChunks parser chunks).2.visibleText = (if parser.planMode then
        messageText (pushChunks parser chunks).2.planSegments
        else (HiddenTags.pushAll parser.citations chunks).2) ∧
      (parser.planMode = false → (pushChunks parser chunks).2.planSegments = []) := by
  induction chunks generalizing parser with
  | nil => exact ⟨rfl, rfl, rfl, by cases parser.planMode <;> rfl, fun _ => rfl⟩
  | cons chunk chunks ih =>
    obtain ⟨planMode, citations, plan⟩ := parser
    obtain ⟨mode, read, cited, text, segments⟩ := ih
      (AssistantTextStreamParser.pushStr ⟨planMode, citations, plan⟩ chunk).1
    cases planMode with
    | false => exact ⟨mode, read, congrArg (_ ++ ·) cited, congrArg (_ ++ ·) text, segments⟩
    | true =>
      refine ⟨mode, read, congrArg (_ ++ ·) cited, (congrArg (_ ++ ·) text).trans ?_, nofun⟩
      exact (flatMap_append).symm

theorem finish_spec : parser.finish.2.citations =
        contentsOf (InlineHiddenTagParser.finish parser.citations).2.extracted ∧
      parser.finish.2.visibleText = (if parser.planMode then
        messageText parser.finish.2.planSegments
        else (InlineHiddenTagParser.finish parser.citations).2.visibleText) ∧
      (parser.planMode = false → parser.finish.2.planSegments = []) := by
  obtain ⟨planMode, citations, plan⟩ := parser
  cases planMode with
  | false => exact ⟨rfl, rfl, fun _ => rfl⟩
  | true => exact ⟨rfl, (flatMap_append).symm, nofun⟩

theorem streamed_citations (planMode : Bool) (chunks : List (List Char)) :
    (streamed planMode chunks).citations = extractedContents CitationStreamParser.new chunks := by
  obtain ⟨_, citations, out, _⟩ := pushChunks_spec (.new planMode) chunks
  have last := (finish_spec (pushChunks (.new planMode) chunks).1).1
  rw [citations] at last
  exact congrArg₂ (· ++ ·) out last

/-! ## Without plan mode -/

theorem streamed_plain : (streamed false chunks).visibleText =
        HiddenTags.visibleText CitationStreamParser.new chunks ∧
      (streamed false chunks).planSegments = [] := by
  obtain ⟨mode, citations, _, text, segments⟩ := pushChunks_spec (.new false) chunks
  obtain ⟨_, lastText, lastSegments⟩ := finish_spec (pushChunks (.new false) chunks).1
  rw [mode, citations] at lastText
  exact ⟨congrArg₂ (· ++ ·) text lastText, congrArg₂ (· ++ ·) (segments rfl) (lastSegments mode)⟩

/-! ## Plan mode -/

theorem pushChunks_planSegments :
    (pushChunks parser chunks).1 = (PlanSegments.pushAll parser chunks).1 ∧
      (pushChunks parser chunks).2.planSegments = (PlanSegments.pushAll parser chunks).2 := by
  induction chunks generalizing parser with
  | nil => exact ⟨rfl, rfl⟩
  | cons chunk chunks ih =>
    have rest := ih (parser.pushStr chunk).1
    exact ⟨rest.1, congrArg (_ ++ ·) rest.2⟩

theorem streamed_planSegments : (streamed true chunks).planSegments = streamedSegments chunks := by
  obtain ⟨parser, segments⟩ := pushChunks_planSegments (.new true) chunks
  have last : (pushChunks (.new true) chunks).1.finish.2.planSegments =
      (PlanSegments.pushAll (.new true) chunks).1.finish.2.planSegments := by
    rw [parser]
  exact congrArg₂ (· ++ ·) segments last

theorem streamed_visible : (streamed true chunks).visibleText =
      messageText (streamedSegments chunks) := by
  obtain ⟨mode, _, _, text, _⟩ := pushChunks_spec (.new true) chunks
  obtain ⟨_, last, _⟩ := finish_spec (pushChunks (.new true) chunks).1
  rw [mode] at last
  rw [← streamed_planSegments]
  exact (congrArg₂ (· ++ ·) text last).trans (flatMap_append).symm

theorem messageText_streamedSegments : messageText (streamedSegments chunks) =
      removeBlocks planSpec (removeSpans citationSpec chunks.flatten) := by
  have marks := planMarks_streamedSegments chunks
  have uncited : (stripCitations chunks.flatten).1 = removeSpans citationSpec chunks.flatten := by
    rw [← visible_eq_stripCitations]
    exact visibleText_eq_removeSpans citationSpec chunks
  have outside : ∀ marks : List (Mark PlanTag),
      marks.filterMap normalCharacter = outsideText marks := by
    intro marks
    refine filterMap_congr fun mark _ => ?_
    cases mark <;> rfl
  rw [messageText_eq, marks, uncited, outside, removeBlocks]
  exact outsideText_marksFrom planSpec false _

/-! ## Joined segments -/

/-- The joined segments that marks stand for. -/
def ofMarks : List (Mark PlanTag) → List ProposedPlanSegment
  | [] => []
  | .normal char :: rest => joinNormal [char] (ofMarks rest)
  | .inside _ char :: rest => joinDelta [char] (ofMarks rest)
  | .start _ :: rest => .proposedPlanStart :: ofMarks rest
  | .stop _ :: rest => .proposedPlanEnd :: ofMarks rest

variable (text more : List Char) (segments : List ProposedPlanSegment)

theorem joinNormal_joinNormal :
    joinNormal text (joinNormal more segments) = joinNormal (text ++ more) segments := by
  cases segments with
  | nil => rfl
  | cons segment others => cases segment <;> simp [joinNormal]

theorem joinDelta_joinDelta :
    joinDelta text (joinDelta more segments) = joinDelta (text ++ more) segments := by
  cases segments with
  | nil => rfl
  | cons segment others => cases segment <;> simp [joinDelta]

def HasText : ProposedPlanSegment → Prop
  | .normal text => text ≠ []
  | .proposedPlanDelta text => text ≠ []
  | _ => True

theorem ofMarks_run {mark : Char → Mark PlanTag}
    {join : List Char → List ProposedPlanSegment → List ProposedPlanSegment}
    (step : ∀ char rest, ofMarks (mark char :: rest) = join [char] (ofMarks rest))
    (joins : ∀ text more segments, join text (join more segments) = join (text ++ more) segments)
    (char : Char) (text : List Char) (rest : List (Mark PlanTag)) :
    ofMarks ((char :: text).map mark ++ rest) = join (char :: text) (ofMarks rest) := by
  induction text generalizing char with
  | nil => exact step char rest
  | cons next text ih => rw [map_cons, cons_append, step, ih, joins, singleton_append]

theorem joinSegments_eq_ofMarks {segments : List ProposedPlanSegment}
    (full : ∀ segment ∈ segments, HasText segment) :
    joinSegments segments = ofMarks (planMarks segments) := by
  induction segments with
  | nil => rfl
  | cons segment rest ih =>
    rw [forall_mem_cons] at full
    have later := ih full.2
    have split : planMarks (segment :: rest) = segmentMarks segment ++ planMarks rest := rfl
    rw [split]
    cases segment with
    | normal text =>
      cases text with
      | nil => exact absurd rfl full.1
      | cons char text => rw [segmentMarks, ofMarks_run (fun _ _ => rfl) joinNormal_joinNormal,
          joinSegments, later]
    | proposedPlanDelta text =>
      cases text with
      | nil => exact absurd rfl full.1
      | cons char text => rw [segmentMarks, ofMarks_run (fun _ _ => rfl) joinDelta_joinDelta,
          joinSegments, later]
    | proposedPlanStart | proposedPlanEnd => exact congrArg (_ :: ·) later

theorem hasText_of_fromFull {found : ProposedPlanSegment} (fromFull : FromFull found) :
    HasText found := by
  obtain ⟨segment, isFull, rfl⟩ := fromFull
  cases segment with
  | normal text => exact isFull
  | tagStart tag | tagEnd tag => cases tag; trivial
  | tagDelta tag text => cases tag; exact isFull

theorem joinSegments_streamed : joinSegments (streamed true chunks).planSegments =
      ofMarks (marksOf (stripCitations chunks.flatten).1) := by
  have full := fun segment listed =>
    hasText_of_fromFull (fromFull_streamedSegments chunks segment listed)
  rw [streamed_planSegments, joinSegments_eq_ofMarks full, planMarks_streamedSegments]

/-! ## Any chunks -/

/--
However a message is cut into chunks, it gives the visible text, the citations
and the joined plan segments that it gives in one chunk, and the visible text
is the message without its citations and plan blocks.
-/
theorem assistant_text_chunk_independent (planMode : Bool) (chunks : List (List Char)) :
    (streamed planMode chunks).visibleText = (streamed planMode [chunks.flatten]).visibleText ∧
      (streamed planMode chunks).citations = (streamed planMode [chunks.flatten]).citations ∧
      joinSegments (streamed planMode chunks).planSegments =
        joinSegments (streamed planMode [chunks.flatten]).planSegments ∧
      (streamed planMode chunks).visibleText = visibleSpec planMode chunks.flatten := by
  have whole : [chunks.flatten].flatten = chunks.flatten := flatten_singleton
  have visible : ∀ chunks, (streamed planMode chunks).visibleText =
      visibleSpec planMode chunks.flatten := by
    intro chunks
    cases planMode with
    | false =>
      rw [(streamed_plain chunks).1]
      exact visibleText_eq_removeSpans citationSpec chunks
    | true =>
      rw [streamed_visible, messageText_streamedSegments]
      rfl
  refine ⟨?_, ?_, ?_, visible chunks⟩
  · rw [visible, visible, whole]
  · rw [streamed_citations, streamed_citations]
    exact extractedContents_chunks citationSpec chunks
  · cases planMode with
    | false => rw [(streamed_plain _).2, (streamed_plain _).2]
    | true => rw [joinSegments_streamed, joinSegments_streamed, whole]

end Codex.StreamParser.ChunkIndependence
