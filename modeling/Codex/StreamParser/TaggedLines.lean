import Codex.Rust.Text
import Mathlib.Data.List.DropRight

/-!
# Tag blocks by lines

`TaggedLineParser` of `utils/stream-parser`: a tag stands alone on a line, so
the start of each line is buffered until it cannot be a tag any more.  Texts
are lists of characters.
-/

namespace Codex.StreamParser.TaggedLines

open Rust.Text List

variable {τ : Type} [DecidableEq τ]

/-! ## The parser -/

structure TagSpec (τ : Type) where
  openTag : List Char
  closeTag : List Char
  tag : τ
deriving DecidableEq

inductive TaggedLineSegment (τ : Type) where
  | normal (text : List Char)
  | tagStart (tag : τ)
  | tagDelta (tag : τ) (text : List Char)
  | tagEnd (tag : τ)
deriving DecidableEq

structure TaggedLineParser (τ : Type) where
  specs : List (TagSpec τ)
  activeTag : Option τ
  detectTag : Bool
  lineBuffer : List Char
deriving DecidableEq

variable (segments : List (TaggedLineSegment τ)) (segment : TaggedLineSegment τ)

def pushSegment : List (TaggedLineSegment τ) :=
  match segment with
  | .normal delta =>
    if delta.isEmpty then segments
    else
      match segments.getLast? with
      | some (.normal existing) => segments.dropLast ++ [.normal (existing ++ delta)]
      | _ => segments ++ [.normal delta]
  | .tagDelta tag delta =>
    if delta.isEmpty then segments
    else
      match segments.getLast? with
      | some (.tagDelta existingTag existing) =>
        if existingTag = tag then segments.dropLast ++ [.tagDelta tag (existing ++ delta)]
        else segments ++ [.tagDelta tag delta]
      | _ => segments ++ [.tagDelta tag delta]
  | .tagStart tag => segments ++ [.tagStart tag]
  | .tagEnd tag => segments ++ [.tagEnd tag]

/-- `trim_start().trim_end()` of a line without its newline. -/
def slugOf (line : List Char) : List Char :=
  let withoutNewline := if line.getLast? = some '\n' then line.dropLast else line
  (withoutNewline.dropWhile isWhiteSpace).rdropWhile isWhiteSpace

namespace TaggedLineParser

def new (specs : List (TagSpec τ)) : TaggedLineParser τ := ⟨specs, none, true, []⟩

variable (parser : TaggedLineParser τ) (slug : List Char)

def isTagPrefix : Bool :=
  let slug := slug.rdropWhile isWhiteSpace
  parser.specs.any fun spec => slug.isPrefixOf spec.openTag || slug.isPrefixOf spec.closeTag

def matchOpen : Option τ := (parser.specs.find? fun spec => spec.openTag = slug).map TagSpec.tag

def matchClose : Option τ := (parser.specs.find? fun spec => spec.closeTag = slug).map TagSpec.tag

def textSegment (text : List Char) : TaggedLineSegment τ :=
  match parser.activeTag with
  | some tag => .tagDelta tag text
  | none => .normal text

/-- The segment of a whole line, and the tag that is active after it. -/
def lineSegment (line : List Char) : TaggedLineSegment τ × Option τ :=
  let slug := slugOf line
  match parser.matchOpen slug, parser.activeTag with
  | some tag, none => (.tagStart tag, some tag)
  | _, active =>
    match parser.matchClose slug with
    | some tag =>
      if active = some tag then (.tagEnd tag, none)
      else (parser.textSegment line, active)
    | none => (parser.textSegment line, active)

def finishLine : TaggedLineParser τ × TaggedLineSegment τ :=
  let (segment, active) := parser.lineSegment parser.lineBuffer
  ({ parser with activeTag := active, detectTag := true, lineBuffer := [] }, segment)

/-- What the loop of `parse` carries: the run of text and the segments. -/
structure Parsing (τ : Type) where
  parser : TaggedLineParser τ
  run : List Char
  segments : List (TaggedLineSegment τ)

def parseChar (parsing : Parsing τ) (char : Char) : Parsing τ :=
  let parser := parsing.parser
  if parser.detectTag then
    let segments :=
      if parsing.run.isEmpty then parsing.segments
      else pushSegment parsing.segments (parser.textSegment parsing.run)
    let parser := { parser with lineBuffer := parser.lineBuffer ++ [char] }
    if char = '\n' then
      let (parser, segment) := parser.finishLine
      ⟨parser, [], pushSegment segments segment⟩
    else
      let slug := parser.lineBuffer.dropWhile isWhiteSpace
      if slug.isEmpty || parser.isTagPrefix slug then ⟨parser, [], segments⟩
      else
        ⟨{ parser with detectTag := false, lineBuffer := [] }, [],
          pushSegment segments (parser.textSegment parser.lineBuffer)⟩
  else
    let run := parsing.run ++ [char]
    if char = '\n' then
      ⟨{ parser with detectTag := true }, [], pushSegment parsing.segments (parser.textSegment run)⟩
    else ⟨parser, run, parsing.segments⟩

def parse (delta : List Char) : TaggedLineParser τ × List (TaggedLineSegment τ) :=
  let parsing := delta.foldl parseChar ⟨parser, [], []⟩
  (parsing.parser, if parsing.run.isEmpty then parsing.segments
    else pushSegment parsing.segments
      (parsing.parser.textSegment parsing.run))

def finish : TaggedLineParser τ × List (TaggedLineSegment τ) :=
  let (active, segments) :=
    if parser.lineBuffer.isEmpty then (parser.activeTag, [])
    else
      let (segment, active) := parser.lineSegment parser.lineBuffer
      (active, pushSegment [] segment)
  ({ parser with activeTag := none, detectTag := true, lineBuffer := [] }, match active with
    | some tag => pushSegment segments (.tagEnd tag)
    | none => segments)

end TaggedLineParser

/-! ## Marks -/

/-- A character of the text or of a tag block, or a tag line. -/
inductive Mark (τ : Type) where
  | normal (char : Char)
  | start (tag : τ)
  | inside (tag : τ) (char : Char)
  | stop (tag : τ)
deriving DecidableEq

def TaggedLineSegment.marks : TaggedLineSegment τ → List (Mark τ)
  | .normal text => text.map .normal
  | .tagStart tag => [.start tag]
  | .tagDelta tag text => text.map (.inside tag)
  | .tagEnd tag => [.stop tag]

def marks : List (Mark τ) := segments.flatMap TaggedLineSegment.marks

omit [DecidableEq τ] in
@[simp]
theorem marks_nil : marks ([] : List (TaggedLineSegment τ)) = [] := rfl

omit [DecidableEq τ] in
@[simp]
theorem marks_append (segments more : List (TaggedLineSegment τ)) :
    marks (segments ++ more) = marks segments ++ marks more := by
  simp [marks]

@[simp]
theorem marks_pushSegment :
    marks (pushSegment segments segment) = marks segments ++ segment.marks := by
  have single : ∀ segment : TaggedLineSegment τ, marks [segment] = segment.marks := by
    intro segment
    simp [marks]
  have last : ∀ existing, segments.getLast? = some existing →
      marks segments = marks segments.dropLast ++ existing.marks := by
    intro existing found
    rw [← single existing, ← marks_append]
    rw [dropLast_append_getLast? existing found]
  unfold pushSegment
  split
  next delta =>
    split
    next empty =>
      rw [List.isEmpty_iff] at empty
      simp [empty, TaggedLineSegment.marks]
    · split
      next existing found =>
        rw [last _ found]
        simp [single, TaggedLineSegment.marks]
      · simp [single]
  next tag delta =>
    split
    next empty =>
      rw [List.isEmpty_iff] at empty
      simp [empty, TaggedLineSegment.marks]
    · split
      next existingTag existing found =>
        split
        next same =>
          rw [last _ found]
          simp [single, same, TaggedLineSegment.marks]
        · simp [single]
      · simp [single]
  · simp [single]
  · simp [single]

namespace TaggedLineParser

/-- What one character does, and the marks it brings. -/
def step (parser : TaggedLineParser τ) (char : Char) : TaggedLineParser τ × List (Mark τ) :=
  if parser.detectTag then
    let parser := { parser with lineBuffer := parser.lineBuffer ++ [char] }
    if char = '\n' then (parser.finishLine.1, parser.finishLine.2.marks)
    else
      let slug := parser.lineBuffer.dropWhile isWhiteSpace
      if slug.isEmpty || parser.isTagPrefix slug then (parser, [])
      else
        ({ parser with detectTag := false, lineBuffer := [] },
          (parser.textSegment parser.lineBuffer).marks)
  else ({ parser with detectTag := char = '\n' }, (parser.textSegment [char]).marks)

def steps (parser : TaggedLineParser τ) : List Char → TaggedLineParser τ × List (Mark τ)
  | [] => (parser, [])
  | char :: rest =>
    let (next, first) := parser.step char
    let (last, later) := next.steps rest
    (last, first ++ later)

variable (parser : TaggedLineParser τ) (text : List Char)

theorem steps_append (more : List Char) :
    parser.steps (text ++ more) = (((parser.steps text).1.steps more).1,
        (parser.steps text).2 ++ ((parser.steps text).1.steps more).2) := by
  induction text generalizing parser with
  | nil => rfl
  | cons char rest ih => simp only [cons_append, steps, ih, append_assoc]

omit [DecidableEq τ] in
theorem marks_textSegment_append (more : List Char) :
    (parser.textSegment (text ++ more)).marks = (parser.textSegment text).marks ++
        (parser.textSegment more).marks := by
  unfold textSegment
  cases parser.activeTag <;> simp [TaggedLineSegment.marks]

omit [DecidableEq τ] in
@[simp]
theorem marks_textSegment_nil : (parser.textSegment []).marks = [] := by
  unfold textSegment
  cases parser.activeTag <;> rfl

/-- The marks of the segments so far and of the run. -/
def Parsing.marks (parsing : Parsing τ) : List (Mark τ) := TaggedLines.marks parsing.segments ++
    (parsing.parser.textSegment parsing.run).marks

/-- There is a run only where no tag is looked for. -/
def Parsing.Sound (parsing : Parsing τ) : Prop := parsing.parser.detectTag = true → parsing.run = []

theorem parseChar_spec {parsing : Parsing τ} (char : Char) (sound : parsing.Sound) :
    (parseChar parsing char).Sound ∧ (parseChar parsing char).parser =
        (parsing.parser.step char).1 ∧
      (parseChar parsing char).marks = parsing.marks ++ (parsing.parser.step char).2 := by
  obtain ⟨⟨specs, active, detect, buffer⟩, run, segments⟩ := parsing
  unfold parseChar step
  cases detect with
  | true =>
    have noRun : run = [] := sound rfl
    subst noRun
    simp only [if_true, isEmpty_nil]
    split
    · refine ⟨fun _ => rfl, rfl, ?_⟩
      simp [Parsing.marks]
    · split
      · refine ⟨fun _ => rfl, rfl, ?_⟩
        simp [Parsing.marks, textSegment]
      · refine ⟨fun _ => rfl, rfl, ?_⟩
        simp [Parsing.marks]
  | false =>
    simp only [Bool.false_eq_true, if_false]
    by_cases feed : char = '\n'
    · simp only [feed, if_true]
      refine ⟨fun _ => rfl, by simp, ?_⟩
      simp [Parsing.marks, marks_textSegment_append]
    · simp only [feed, if_false]
      refine ⟨nofun, by simp, ?_⟩
      simp [Parsing.marks, marks_textSegment_append]

theorem foldl_parseChar_spec (parsing : Parsing τ) (sound : parsing.Sound) :
    (text.foldl parseChar parsing).parser = (parsing.parser.steps text).1 ∧
      (text.foldl parseChar parsing).marks = parsing.marks ++ (parsing.parser.steps text).2 := by
  induction text generalizing parsing with
  | nil => simp [steps]
  | cons char rest ih =>
    obtain ⟨next, parser, marks⟩ := parseChar_spec char sound
    obtain ⟨lastParser, lastMarks⟩ := ih _ next
    simp only [foldl_cons, steps, lastParser, lastMarks, parser, marks, append_assoc, and_self]

theorem parse_eq_steps (delta : List Char) : (parser.parse delta).1 = (parser.steps delta).1 ∧
      marks (parser.parse delta).2 = (parser.steps delta).2 := by
  obtain ⟨last, marked⟩ := foldl_parseChar_spec delta ⟨parser, [], []⟩ (fun _ => rfl)
  simp only [Parsing.marks, marks_nil, marks_textSegment_nil, append_nil, nil_append] at last marked
  refine ⟨last, ?_⟩
  rw [← marked]
  unfold parse
  simp only
  split
  next empty =>
    rw [List.isEmpty_iff] at empty
    simp [empty]
  next => rw [marks_pushSegment]

end TaggedLineParser

end Codex.StreamParser.TaggedLines
