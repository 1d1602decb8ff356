import Codex.StreamParser.TaggedLines

/-!
# The blocks that a line tag takes out

With one tag, the text outside the blocks is the text without the lines from an
opening tag line to the next closing tag line, both included, or to the end of
the text where there is none.
-/

namespace Codex.StreamParser.TaggedBlocks

open Rust.Text TaggedLines TaggedLineParser List

/-! ## Lines -/

def lines : List Char → List (List Char)
  | [] => []
  | char :: rest =>
    if char = '\n' then [char] :: lines rest
    else
      match lines rest with
      | [] => [[char]]
      | line :: more => (char :: line) :: more

theorem lines_newline (rest : List Char) : lines ('\n' :: rest) = ['\n'] :: lines rest := by
  simp [lines]

theorem lines_line (line rest : List Char) (inner : '\n' ∉ line) :
    lines (line ++ '\n' :: rest) = (line ++ ['\n']) :: lines rest := by
  induction line with
  | nil => exact lines_newline rest
  | cons char line ih =>
    rw [mem_cons, not_or] at inner
    rw [cons_append, lines, if_neg (Ne.symm inner.1), ih inner.2]
    rfl

theorem lines_last (char : Char) {line : List Char} (inner : '\n' ∉ char :: line) :
    lines (char :: line) = [char :: line] := by
  induction line generalizing char with
  | nil =>
    rw [mem_singleton] at inner
    rw [lines, if_neg (Ne.symm inner)]
    rfl
  | cons next line ih =>
    rw [mem_cons, not_or] at inner
    rw [lines, if_neg (Ne.symm inner.1), ih next inner.2]

theorem line_cases (text : List Char) : '\n' ∉ text ∨
      ∃ line rest, '\n' ∉ line ∧ text = line ++ '\n' :: rest := by
  induction text with
  | nil => exact Or.inl (by simp)
  | cons char text ih =>
    by_cases feed : char = '\n'
    · exact Or.inr ⟨[], text, by simp, by rw [feed]; rfl⟩
    · rcases ih with inner | ⟨line, rest, inner, rfl⟩
      · exact Or.inl (by simp [inner, Ne.symm feed])
      · exact Or.inr ⟨char :: line, rest, by simp [inner, Ne.symm feed], rfl⟩

variable {start line : List Char} (drops : Char → Bool)

/-! ## Starts of a tag line -/

theorem dropWhile_prefix (isStart : start <+: line) :
    start.dropWhile drops <+: line.dropWhile drops ∨ start.dropWhile drops = [] := by
  obtain ⟨more, rfl⟩ := isStart
  induction start with
  | nil => exact Or.inr rfl
  | cons char start ih =>
    cases dropped : drops char with
    | true => simpa [dropped] using ih
    | false =>
      left
      simp [dropped]

theorem rdropWhile_start (isStart : start <+: line) :
    start.rdropWhile drops <+: line.rdropWhile drops := by
  obtain ⟨more, rfl⟩ := isStart
  induction more using reverseRecOn with
  | nil => simp
  | append_singleton more char ih =>
    rw [← append_assoc]
    cases dropped : drops char with
    | true =>
      rw [rdropWhile_concat_pos _ _ _ dropped]
      exact ih
    | false =>
      rw [rdropWhile_concat_neg _ _ _ (by simp [dropped]), append_assoc]
      exact ( rdropWhile_prefix drops _).trans (prefix_append _ _)

theorem slug_start (inner : '\n' ∉ start) (isStart : start <+: line) :
    start.dropWhile isWhiteSpace = [] ∨ (start.dropWhile isWhiteSpace).rdropWhile isWhiteSpace <+:
        slugOf line := by
  -- The newline at the end of the line is not part of the start.
  have cut : start <+: (if line.getLast? = some '\n' then line.dropLast else line) := by
    split
    next ends =>
      obtain ⟨more, rfl⟩ := isStart
      rcases eq_nil_or_concat more with rfl | ⟨front, last, rfl⟩
      · rw [append_nil] at ends
        exact absurd (mem_of_getLast? ends) inner
      · rw [concat_eq_append, ← append_assoc, dropLast_concat]
        exact prefix_append _ _
    · exact isStart
  rcases dropWhile_prefix isWhiteSpace cut with longer | empty
  · exact Or.inr (rdropWhile_start isWhiteSpace longer)
  · exact Or.inl empty

/-! ## One line -/

section OneTag

variable {τ : Type} [DecidableEq τ] (spec : TagSpec τ)

/-- The parser at the start of a line, after some of the line. -/
def detecting (active : Option τ) (buffer : List Char) : TaggedLineParser τ :=
  ⟨[spec], active, true, buffer⟩

/-- The parser within a line that is no tag line. -/
def passing (active : Option τ) : TaggedLineParser τ := ⟨[spec], active, false, []⟩

/-- A line that stands for itself. -/
def IsText (line : List Char) : Prop := slugOf line ≠ spec.openTag ∧ slugOf line ≠ spec.closeTag

omit [DecidableEq τ] in
theorem isText_of_start {active : Option τ} (inner : '\n' ∉ start) (isStart : start <+: line)
    (decided : ((start.dropWhile isWhiteSpace).isEmpty ||
      (detecting spec active start).isTagPrefix (start.dropWhile isWhiteSpace)) = false) :
    IsText spec line := by
  simp only [Bool.or_eq_false_iff, isEmpty_eq_false_iff, isTagPrefix, detecting, any_cons, any_nil,
    Bool.or_false, Bool.or_eq_false_iff] at decided
  obtain ⟨visible, notOpen, notClose⟩ := decided
  have longer := (slug_start inner isStart).resolve_left visible
  constructor
  · intro same
    rw [same, ← isPrefixOf_iff_prefix] at longer
    rw [longer] at notOpen
    cases notOpen
  · intro same
    rw [same, ← isPrefixOf_iff_prefix] at longer
    rw [longer] at notClose
    cases notClose

theorem lineSegment_of_isText {active : Option τ} {buffer line : List Char}
    (text : IsText spec line) :
    (detecting spec active buffer).lineSegment line =
      ((detecting spec active buffer).textSegment line, active) := by
  have noOpen : (detecting spec active buffer).matchOpen (slugOf line) = none := by
    simp [matchOpen, detecting, Ne.symm text.1]
  have noClose : (detecting spec active buffer).matchClose (slugOf line) = none := by
    simp [matchClose, detecting, Ne.symm text.2]
  simp only [lineSegment, noOpen, noClose]
  rfl

theorem steps_cons (parser : TaggedLineParser τ) (char : Char) (rest : List Char) :
    parser.steps (char :: rest) = (((parser.step char).1.steps rest).1,
        (parser.step char).2 ++ ((parser.step char).1.steps rest).2) := rfl

variable (active : Option τ) (line : List Char)

theorem steps_passing (inner : '\n' ∉ line) :
    (passing spec active).steps line = (passing spec active,
        ((passing spec active).textSegment line).marks) := by
  induction line with
  | nil => simp [steps]
  | cons char line ih =>
    rw [mem_cons, not_or] at inner
    have here : (passing spec active).step char = (passing spec active,
          ((passing spec active).textSegment [char]).marks) := by
      simp [step, passing, Ne.symm inner.1]
    simp only [steps_cons, here, ih inner.2]
    exact Prod.ext rfl (marks_textSegment_append _ [char] line).symm

/-- Within a line the parser still waits, or has given the line as text. -/
theorem steps_detecting (buffer : List Char) {line : List Char}
    (innerBuffer : '\n' ∉ buffer) (inner : '\n' ∉ line) :
    (detecting spec active buffer).steps line = (detecting spec active (buffer ++ line), []) ∨
      (detecting spec active buffer).steps line = (passing spec active,
            ((passing spec active).textSegment (buffer ++ line)).marks) ∧
        ∀ whole, buffer ++ line <+: whole → IsText spec whole := by
  induction line generalizing buffer with
  | nil =>
    left
    simp [steps]
  | cons char line ih =>
    rw [mem_cons, not_or] at inner
    have innerNext : '\n' ∉ buffer ++ [char] := by simp [innerBuffer, inner.1]
    have split : buffer ++ char :: line = (buffer ++ [char]) ++ line := by simp
    cases decided : (((buffer ++ [char]).dropWhile isWhiteSpace).isEmpty ||
          (detecting spec active (buffer ++ [char])).isTagPrefix
            ((buffer ++ [char]).dropWhile isWhiteSpace)) with
    | true =>
      have here : (detecting spec active buffer).step char =
          (detecting spec active (buffer ++ [char]), []) := by
        have waits := decided
        unfold detecting at waits
        simp only [step, detecting, if_true, Ne.symm inner.1, if_false, waits]
      simp only [steps_cons, here, split]
      rcases ih (buffer ++ [char]) innerNext inner.2 with
        waiting | ⟨given, text⟩
      · exact Or.inl (by rw [waiting]; rfl)
      · exact Or.inr ⟨by rw [given]; rfl, text⟩
    | false =>
      have here : (detecting spec active buffer).step char = (passing spec active,
            ((passing spec active).textSegment (buffer ++ [char])).marks) := by
        have gives := decided
        unfold detecting at gives
        simp only [step, detecting, if_true, Ne.symm inner.1, if_false, gives]
        rfl
      right
      refine ⟨?_, fun whole isStart => ?_⟩
      · simp only [steps_cons, here, steps_passing spec active line inner.2, split]
        exact Prod.ext rfl (marks_textSegment_append _ _ line).symm
      · refine isText_of_start spec innerNext ?_ decided
        refine IsPrefix.trans ?_ isStart
        rw [split]
        exact prefix_append _ _

theorem steps_line (inner : '\n' ∉ line) : (detecting spec active []).steps (line ++ ['\n']) =
      (detecting spec ((detecting spec active []).lineSegment (line ++ ['\n'])).2 [],
        ((detecting spec active []).lineSegment (line ++ ['\n'])).1.marks) := by
  rw [steps_append]
  rcases steps_detecting spec active [] (by simp) inner with
    waiting | ⟨given, text⟩
  · rw [waiting]
    simp only [steps, step, detecting, if_true, append_nil, nil_append]
    rfl
  · have plain : (detecting spec active []).lineSegment (line ++ ['\n']) = _ :=
      lineSegment_of_isText spec (text (line ++ ['\n']) (prefix_append _ _))
    rw [given, plain]
    refine Prod.ext ?_ ?_
    · simp [steps, step, passing, detecting]
    · have joined := marks_textSegment_append (passing spec active) line ['\n']
      simp only [steps, append_nil]
      exact joined.symm

/-- The marks of a text from the start of a line, and of its end. -/
def marksFrom (active : Option τ) (text : List Char) : List (Mark τ) :=
  ((detecting spec active []).steps text).2 ++
    marks ((detecting spec active []).steps text).1.finish.2

/-- The mark that the end of the text puts after an open block. -/
def closing (active : Option τ) : List (Mark τ) := (active.map Mark.stop).toList

theorem marks_finish (char : Char) (line : List Char) :
    marks (detecting spec active (char :: line)).finish.2 =
      ((detecting spec active []).lineSegment (char :: line)).1.marks ++
        closing ((detecting spec active []).lineSegment (char :: line)).2 := by
  have same : (detecting spec active (char :: line)).lineSegment (char :: line) =
        (detecting spec active []).lineSegment (char :: line) := rfl
  have filled : (detecting spec active (char :: line)).lineBuffer = char :: line := rfl
  unfold finish
  simp only [filled, isEmpty_cons, Bool.false_eq_true, if_false, same]
  cases ((detecting spec active []).lineSegment (char :: line)).2 with
  | none => simp [closing]
  | some tag => simp [closing, TaggedLineSegment.marks]

theorem marksFrom_nil : marksFrom spec active [] = closing active := by cases active <;> rfl

/-- A last line gives its segment, and the end closes an open block. -/
theorem marksFrom_last {char : Char} {line : List Char} (inner : '\n' ∉ char :: line) :
    marksFrom spec active (char :: line) = ((detecting spec active []).lineSegment
          (char :: line)).1.marks ++
        closing ((detecting spec active []).lineSegment (char :: line)).2 := by
  unfold marksFrom
  rcases steps_detecting spec active [] (by simp)
    inner with waiting | ⟨given, text⟩
  · rw [waiting, nil_append, nil_append, marks_finish]
  · have plain : (detecting spec active []).lineSegment (char :: line) = _ :=
      lineSegment_of_isText spec (text _ prefix_rfl)
    rw [given, plain]
    cases active <;> rfl

theorem marksFrom_line (rest : List Char) (inner : '\n' ∉ line) :
    marksFrom spec active (line ++ '\n' :: rest) = ((detecting spec active []).lineSegment
          (line ++ ['\n'])).1.marks ++
        marksFrom spec ((detecting spec active []).lineSegment (line ++ ['\n'])).2 rest := by
  have split : line ++ '\n' :: rest = (line ++ ['\n']) ++ rest := by simp
  rw [marksFrom, split, steps_append, steps_line spec active line inner, marksFrom, append_assoc]

/-! ## Blocks -/

def keptLines : (inside : Bool) → List (List Char) → List (List Char)
  | _, [] => []
  | false, line :: rest =>
    if slugOf line = spec.openTag then keptLines true rest
    else line :: keptLines false rest
  | true, line :: rest =>
    if slugOf line = spec.closeTag then keptLines false rest
    else keptLines true rest

/-- The text without its blocks; a block that is not closed goes to the end. -/
def removeBlocks (text : List Char) : List Char := (keptLines spec false (lines text)).flatten

def activeTag (inside : Bool) : Option τ := if inside then some spec.tag else none

def outsideCharacter : Mark τ → Option Char
  | .normal char => some char
  | _ => none

def outsideText (marks : List (Mark τ)) : List Char := marks.filterMap outsideCharacter

omit [DecidableEq τ] in
theorem outsideText_append (marks more : List (Mark τ)) :
    outsideText (marks ++ more) = outsideText marks ++ outsideText more :=
  filterMap_append

omit [DecidableEq τ] in
theorem outsideText_closing : outsideText (closing active) = [] := by cases active <;> rfl

omit [DecidableEq τ] in
theorem outsideText_marks_inside (tag : τ) (text : List Char) :
    outsideText (TaggedLineSegment.tagDelta tag text).marks = [] := by
  simp [outsideText, TaggedLineSegment.marks, outsideCharacter, filterMap_map, Function.comp_def]

omit [DecidableEq τ] in
theorem outsideText_marks_normal (text : List Char) :
    outsideText (TaggedLineSegment.normal text : TaggedLineSegment τ).marks = text := by
  simp [outsideText, TaggedLineSegment.marks, outsideCharacter, filterMap_map, Function.comp_def]

omit [DecidableEq τ] in
theorem matchOpen_detecting (slug : List Char) : (detecting spec active []).matchOpen slug =
      if slug = spec.openTag then some spec.tag else none := by
  simp only [matchOpen, detecting, find?_cons, find?_nil, eq_comm]
  split <;> simp_all

omit [DecidableEq τ] in
theorem matchClose_detecting (slug : List Char) : (detecting spec active []).matchClose slug =
      if slug = spec.closeTag then some spec.tag else none := by
  simp only [matchClose, detecting, find?_cons, find?_nil, eq_comm]
  split <;> simp_all

theorem lineSegment_outside : (detecting spec none []).lineSegment line =
      if slugOf line = spec.openTag then (.tagStart spec.tag, some spec.tag)
      else (.normal line, none) := by
  simp only [lineSegment, matchOpen_detecting, matchClose_detecting]
  by_cases opens : slugOf line = spec.openTag
  · simp only [if_pos opens]
    rfl
  · simp only [if_neg opens]
    by_cases closes : slugOf line = spec.closeTag
    · simp only [if_pos closes]
      rfl
    · simp only [if_neg closes]
      rfl

theorem lineSegment_inside : (detecting spec (some spec.tag) []).lineSegment line =
      if slugOf line = spec.closeTag then (.tagEnd spec.tag, none)
      else (.tagDelta spec.tag line, some spec.tag) := by
  have active : (detecting spec (some spec.tag) []).activeTag = some spec.tag := rfl
  simp only [lineSegment, matchClose_detecting, active]
  by_cases closes : slugOf line = spec.closeTag
  · simp only [if_pos closes]
    cases (detecting spec (some spec.tag) []).matchOpen (slugOf line) <;>
      simp
  · simp only [if_neg closes]
    cases (detecting spec (some spec.tag) []).matchOpen (slugOf line) <;>
      rfl

theorem lineSegment_spec (inside : Bool) (line : List Char) (rest : List (List Char)) : ∃ next,
      ((detecting spec (activeTag spec inside) []).lineSegment line).2 = activeTag spec next ∧
        (keptLines spec inside (line :: rest)).flatten =
          outsideText ((detecting spec (activeTag spec inside) []).lineSegment line).1.marks ++
              (keptLines spec next rest).flatten := by
  cases inside with
  | false =>
    have none : activeTag spec false = Option.none := rfl
    rw [none, lineSegment_outside, keptLines]
    by_cases opens : slugOf line = spec.openTag
    · rw [if_pos opens, if_pos opens]
      exact ⟨true, rfl, rfl⟩
    · rw [if_neg opens, if_neg opens]
      refine ⟨false, rfl, ?_⟩
      rw [flatten_cons, outsideText_marks_normal]
  | true =>
    have some : activeTag spec true = Option.some spec.tag := rfl
    rw [some, lineSegment_inside, keptLines]
    by_cases closes : slugOf line = spec.closeTag
    · rw [if_pos closes, if_pos closes]
      exact ⟨false, rfl, rfl⟩
    · rw [if_neg closes, if_neg closes]
      refine ⟨true, rfl, ?_⟩
      rw [outsideText_marks_inside, nil_append]

theorem outsideText_marksFrom (inside : Bool) (text : List Char) :
    outsideText (marksFrom spec (activeTag spec inside) text) =
      (keptLines spec inside (lines text)).flatten := by
  induction size : text.length using Nat.strong_induction_on generalizing inside text with
  | _ length ih =>
    rcases line_cases text with inner | ⟨line, rest, inner, rfl⟩
    · cases text with
      | nil =>
        rw [marksFrom_nil, outsideText_closing]
        cases inside <;> rfl
      | cons char line =>
        obtain ⟨next, active, kept⟩ := lineSegment_spec spec inside (char :: line) []
        rw [marksFrom_last spec _ inner, outsideText_append, outsideText_closing,
          lines_last char inner, kept]
        cases next <;> rfl
    · obtain ⟨next, active, kept⟩ := lineSegment_spec spec inside (line ++ ['\n']) (lines rest)
      rw [marksFrom_line spec _ line rest inner, outsideText_append, active,
        lines_line line rest inner, kept,
        ih rest.length (by simp at size; omega) next rest rfl]

end OneTag

end Codex.StreamParser.TaggedBlocks
