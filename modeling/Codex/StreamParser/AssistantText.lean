import Codex.StreamParser.HiddenTags
import Codex.StreamParser.TaggedLines

/-!
# Citations and proposed plans in assistant text

`CitationStreamParser`, `ProposedPlanParser` and `AssistantTextStreamParser` of
`utils/stream-parser`.  A streamed message is stripped of citations first; in
plan mode what is left is split into plan blocks and other text.  The functions
on complete texts run the same parsers on one chunk.
-/

namespace Codex.StreamParser.AssistantText

open HiddenTags TaggedLines

/-! ## Citations -/

inductive CitationTag where
  | citation
deriving DecidableEq

def citationSpec : InlineTagSpec CitationTag where
  tag := .citation
  openTag := "<oai-mem-citation>".toList
  closeTag := "</oai-mem-citation>".toList
  openTag_ne := by decide
  closeTag_ne := by decide

abbrev CitationStreamParser := InlineHiddenTagParser CitationTag

def CitationStreamParser.new : CitationStreamParser := InlineHiddenTagParser.new [citationSpec]

def contents (chunk : StreamTextChunk (ExtractedInlineTag CitationTag)) :
    StreamTextChunk (List Char) :=
  ⟨chunk.visibleText, chunk.extracted.map ExtractedInlineTag.content⟩

variable (parser : CitationStreamParser)

def CitationStreamParser.push (chunk : List Char) :
    CitationStreamParser × StreamTextChunk (List Char) :=
  let (parser, out) := InlineHiddenTagParser.pushStr parser chunk
  (parser, contents out)

def CitationStreamParser.flush : CitationStreamParser × StreamTextChunk (List Char) :=
  let (parser, out) := InlineHiddenTagParser.finish parser
  (parser, contents out)

variable (text : List Char)

def stripCitations : List Char × List (List Char) :=
  let (parser, out) := CitationStreamParser.new.push text
  let tail := parser.flush.2
  (out.visibleText ++ tail.visibleText, out.extracted ++ tail.extracted)

/-! ## Proposed plans -/

inductive PlanTag where
  | proposedPlan
deriving DecidableEq

def planSpec : TagSpec PlanTag where
  openTag := "<proposed_plan>".toList
  closeTag := "</proposed_plan>".toList
  tag := .proposedPlan

inductive ProposedPlanSegment where
  | normal (text : List Char)
  | proposedPlanStart
  | proposedPlanDelta (text : List Char)
  | proposedPlanEnd
deriving DecidableEq

abbrev ProposedPlanParser := TaggedLineParser PlanTag

def ProposedPlanParser.new : ProposedPlanParser := TaggedLineParser.new [planSpec]

def mapSegment : TaggedLineSegment PlanTag → ProposedPlanSegment
  | .normal text => .normal text
  | .tagStart .proposedPlan => .proposedPlanStart
  | .tagDelta .proposedPlan text => .proposedPlanDelta text
  | .tagEnd .proposedPlan => .proposedPlanEnd

def ProposedPlanSegment.normalText : ProposedPlanSegment → List Char
  | .normal text => text
  | _ => []

def mapSegments (segments : List (TaggedLineSegment PlanTag)) :
    StreamTextChunk ProposedPlanSegment :=
  let mapped := segments.map mapSegment
  ⟨mapped.flatMap ProposedPlanSegment.normalText, mapped⟩

def ProposedPlanParser.push (parser : ProposedPlanParser) (chunk : List Char) :
    ProposedPlanParser × StreamTextChunk ProposedPlanSegment :=
  let (parser, segments) := TaggedLineParser.parse parser chunk
  (parser, mapSegments segments)

def ProposedPlanParser.flush (parser : ProposedPlanParser) :
    ProposedPlanParser × StreamTextChunk ProposedPlanSegment :=
  let (parser, segments) := TaggedLineParser.finish parser
  (parser, mapSegments segments)

def stripProposedPlanBlocks : List Char :=
  let (parser, out) := ProposedPlanParser.new.push text
  out.visibleText ++ parser.flush.2.visibleText

def lastPlan (plan : Option (List Char)) : ProposedPlanSegment → Option (List Char)
  | .proposedPlanStart => some []
  | .proposedPlanDelta delta => plan.map (· ++ delta)
  | .proposedPlanEnd => plan
  | .normal _ => plan

/--
`extract_proposed_plan_text`.  A delta comes after the start of its block, so
that the flag of the code is the presence of the text.
-/
def extractProposedPlanText : Option (List Char) :=
  let (parser, out) := ProposedPlanParser.new.push text
  (out.extracted ++ parser.flush.2.extracted).foldl lastPlan none

/-! ## Assistant text -/

structure AssistantTextChunk where
  visibleText : List Char
  citations : List (List Char)
  planSegments : List ProposedPlanSegment
deriving DecidableEq

def AssistantTextChunk.empty : AssistantTextChunk := ⟨[], [], []⟩

def AssistantTextChunk.isEmpty (chunk : AssistantTextChunk) : Bool :=
  chunk.visibleText.isEmpty && chunk.citations.isEmpty && chunk.planSegments.isEmpty

structure AssistantTextStreamParser where
  planMode : Bool
  citations : CitationStreamParser
  plan : ProposedPlanParser

variable (parser : AssistantTextStreamParser)

namespace AssistantTextStreamParser

def new (planMode : Bool) : AssistantTextStreamParser := ⟨planMode, .new, .new⟩

def parseVisibleText (visibleText : List Char) : AssistantTextStreamParser × AssistantTextChunk :=
  if parser.planMode then
    let (plan, out) := parser.plan.push visibleText
    ({ parser with plan := plan }, ⟨out.visibleText, [], out.extracted⟩)
  else (parser, ⟨visibleText, [], []⟩)

def pushStr (chunk : List Char) : AssistantTextStreamParser × AssistantTextChunk :=
  let (citations, citationChunk) := parser.citations.push chunk
  let (parser, out) :=
    { parser with citations := citations }.parseVisibleText citationChunk.visibleText
  (parser, { out with citations := citationChunk.extracted })

def finish : AssistantTextStreamParser × AssistantTextChunk :=
  let (citations, citationChunk) := parser.citations.flush
  let (parser, out) :=
    { parser with citations := citations }.parseVisibleText citationChunk.visibleText
  let (parser, out) :=
    if parser.planMode then
      let (plan, tail) := parser.plan.flush
      ({ parser with plan := plan }, { out with
          visibleText := out.visibleText ++ tail.visibleText
          planSegments := out.planSegments ++ tail.extracted })
    else (parser, out)
  (parser, { out with citations := citationChunk.extracted })

end AssistantTextStreamParser

end Codex.StreamParser.AssistantText
