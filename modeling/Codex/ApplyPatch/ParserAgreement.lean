import Codex.ApplyPatch.LineSimulation

/-!
# When the two patch parsers agree

A patch text that the batch parser accepts, cut into deltas in any way, is read
by the streaming parser as the same hunks exactly when its lines are harmless:
no blank line before a chunk, no move or context line with space at its end, no
indented environment line, and no indented last line after an update hunk.
-/

namespace Codex.ApplyPatch.ParserAgreement

open Rust.Text Rust.Lines Rust.Trimming Patch LineMachine Streaming List Option
  UpdateLines LineSimulation

/-! ## Runs over lines -/

/-- The parser reads one whole line. -/
def readLine (parser : StreamingPatchParser) (line : String) :
    Except ParseError StreamingPatchParser :=
  processLine { parser with lineBuffer := [], lineNumber := parser.lineNumber + 1 } line

theorem readLine_of_aligned {state : LineState}
    {parser : StreamingPatchParser} (aligned : Aligned state parser) :
    Aligned state { parser with
      lineBuffer := []
      lineNumber := parser.lineNumber + 1 } :=
  ⟨aligned.sound, aligned.fits, aligned.same⟩

theorem readLine_of_forked {state : LineState}
    {parser : StreamingPatchParser} (forked : Forked state parser) :
    Forked state { parser with
      lineBuffer := []
      lineNumber := parser.lineNumber + 1 } :=
  ⟨forked.sound, forked.fits, forked.counted, forked.differs⟩

theorem forked_run {lines : List String} (state final : LineState)
    (parser last : StreamingPatchParser) (forked : Forked state parser)
    (ran : lines.foldlM LineState.step state = some final)
    (read : lines.foldlM readLine parser = .ok last) : Forked final last := by
  induction lines generalizing state parser with
  | nil =>
    obtain rfl := Option.some.inj ran
    obtain rfl := Except.ok.inj read
    exact forked
  | cons line rest ih =>
    simp only [foldlM_cons, bind_eq_bind, bind_eq_some_iff] at ran
    obtain ⟨next, stepped, later⟩ := ran
    rw [foldlM_cons] at read
    obtain ⟨following, first, read⟩ := bind_eq_ok read
    exact ih next following (forked_step state next _ following line
      (readLine_of_forked forked) stepped first) later read

/-- An aligned parser follows harmless lines and forks at a harmful one. -/
theorem aligned_run {lines : List String} (state : LineState) {final : LineState}
    (parser : StreamingPatchParser) (aligned : Aligned state parser)
    (ran : lines.foldlM LineState.step state = some final) :
    (linesHarmless (position state) lines = true →
      ∃ last, lines.foldlM readLine parser = .ok last ∧ Aligned final last ∧
        position final = lines.foldl nextPosition (position state)) ∧
      (linesHarmless (position state) lines = false →
        ∀ last, lines.foldlM readLine parser = .ok last → Forked final last) := by
  induction lines generalizing state parser with
  | nil =>
    obtain rfl := Option.some.inj ran
    exact ⟨fun _ => ⟨parser, rfl, aligned, rfl⟩, fun harmful => by cases harmful⟩
  | cons line rest ih =>
    simp only [foldlM_cons, bind_eq_bind, bind_eq_some_iff] at ran
    obtain ⟨next, stepped, later⟩ := ran
    obtain ⟨keeps, forks⟩ := aligned_step state next _ line (readLine_of_aligned aligned) stepped
    have moved := position_step state next line aligned.sound stepped
    simp only [linesHarmless, Bool.and_eq_true, Bool.and_eq_false_iff]
    cases safe : harmless (position state) line with
    | true =>
      obtain ⟨following, read, stillAligned⟩ := keeps safe
      have first : readLine parser line = .ok following := read
      simp only [foldlM_cons, foldl_cons, bind, Except.bind, first, ← moved,
        true_and, Bool.true_eq_false, false_or]
      exact ih next following stillAligned later
    | false =>
      refine ⟨fun both => by simp at both, fun _ last read => ?_⟩
      rw [foldlM_cons] at read
      obtain ⟨following, first, read⟩ := bind_eq_ok read
      exact forked_run next final following last (forks safe following first) later read

/-! ## The end of the patch -/

variable (parser : StreamingPatchParser)

/-- The last line, in a mode that reads it trimmed on both sides. -/
theorem handle_endPatch : handleHunkHeadersAndEndPatch parser endPatchMarker =
      (ensureUpdateHunkIsNotEmpty parser endPatchMarker).map
        fun _ => some { parser with mode := .endedPatch } := by
  simp only [handleHunkHeadersAndEndPatch, if_true]
  cases ensureUpdateHunkIsNotEmpty parser endPatchMarker <;> rfl

theorem processLine_endPatch {state : LineState}
    {parser : StreamingPatchParser} (fits : ModeFits state parser)
    {line : String} (ends : trim line = endPatchMarker) :
    (position state = .outside ∨ trimEnd line = endPatchMarker → processLine parser line =
        (ensureUpdateHunkIsNotEmpty parser endPatchMarker).map
          fun _ => { parser with mode := .endedPatch }) ∧
      (¬ (position state = .outside ∨ trimEnd line = endPatchMarker) →
        ∀ following, processLine parser line = .ok following → following.mode ≠ .endedPatch) := by
  have handled := handle_endPatch parser
  cases state with
  | closed hunks =>
    refine ⟨fun _ => ?_, fun inside => absurd (Or.inl rfl) inside⟩
    rw [← ends] at handled ⊢
    refine readsHeader parser line ?_ ?_ (fun parser => { parser with mode := .endedPatch }) handled
    · rcases fits with ⟨started, -, -⟩ | deleting
      · exact Or.inl started
      · exact Or.inr (Or.inr deleting)
    · by_contra preamble
      obtain ⟨rest, shape⟩ := startsWith_environmentId line (by simpa using preamble)
      exact (opensNothing_of_environmentId shape).notEnd ends
  | adding hunks path contents =>
    refine ⟨fun _ => ?_, fun inside => absurd (Or.inl rfl) inside⟩
    rw [← ends] at handled ⊢
    simp only [processLine, show parser.mode = .addFile from fits, handled]
    cases ensureUpdateHunkIsNotEmpty parser (trim line) <;> rfl
  | updating hunks path movePath chunks place =>
    obtain ⟨lineNumber, mode⟩ := fits
    refine ⟨fun seen => ?_, fun unseen following read => ?_⟩
    · have trimmed : trimEnd line = endPatchMarker := by
        rcases seen with outside | trimmed
        · cases place <;> cases outside
        · exact trimmed
      simp only [processLine, mode, trimmed, handled]
      cases ensureUpdateHunkIsNotEmpty parser endPatchMarker <;> rfl
    · have indented : trimEnd line ≠ endPatchMarker := fun trimmed => unseen (Or.inr trimmed)
      -- A visible first character would make both trimmings the same.
      have noStar : (trimEnd line).toList.head? ≠ some '*' := by
        intro star
        have first := head?_trimEnd line '*' star
        cases chars : line.toList with
        | nil => rw [chars] at first; cases first
        | cons char tail =>
          rw [chars] at first
          obtain rfl := Option.some.inj first
          exact indented ((trim_eq_trimEnd line '*' tail chars (by decide)).symm.trans ends)
      simp only [processLine, mode, handleHunkHeadersAndEndPatch_of_opensNothing parser
          (opensNothing_of_head noStar), bind, Except.bind] at read
      split at read
      next =>
        split at read
        next => cases read
        next =>
          obtain rfl := Except.ok.inj read
          simp
      next => cases read

/-! ## Characters and lines -/

theorem handle_lineBuffer {next : StreamingPatchParser} {trimmed : String}
    (handled : handleHunkHeadersAndEndPatch parser trimmed =
      .ok (some next)) : next.lineBuffer = parser.lineBuffer := by
  simp only [handleHunkHeadersAndEndPatch, bind, Except.bind, pure, Except.pure] at handled
  repeat' split at handled
  all_goals first
    | (obtain rfl := Option.some.inj (Except.ok.inj handled); rfl)
    | cases handled

theorem processLine_lineBuffer {following : StreamingPatchParser}
    {line : String} (read : processLine parser line = .ok following) :
    following.lineBuffer = parser.lineBuffer := by
  simp only [processLine, bind, Except.bind, pure, Except.pure] at read
  repeat' split at read
  all_goals first
    | (obtain rfl := Except.ok.inj read
       first
         | rfl
         | exact handle_lineBuffer _ ‹_›)
    | cases read

/-- Characters up to a line feed are read as the lines of their text. -/
theorem push_text (text rest : List Char) (ends : text.getLast?.all (· == '\n') = true)
    (ready : text = [] → parser.lineBuffer = []) :
    (text ++ rest).foldlM pushCharacter parser =
      (((linesFrom parser.lineBuffer text).map String.ofList).foldlM readLine
        { parser with lineBuffer := [] }).bind fun next => rest.foldlM pushCharacter next := by
  induction text generalizing parser with
  | nil =>
    obtain ⟨buffer, mode, hunks, lineNumber⟩ := parser
    obtain rfl : buffer = [] := ready rfl
    rfl
  | cons char text ih =>
    have later : text ≠ [] ∨ char = '\n' → text.getLast?.all (· == '\n') = true := by
      cases text with
      | nil => simp
      | cons next rest => exact fun _ => by simpa using ends
    by_cases feed : char = '\n'
    · simp only [cons_append, foldlM_cons, pushCharacter, linesFrom, feed, if_true, map_cons]
      show (readLine parser _).bind _ = ((readLine parser _).bind _).bind _
      cases first : readLine parser (String.ofList (stripCarriageReturn parser.lineBuffer)) with
      | error problem => rfl
      | ok following =>
        have cleared : following.lineBuffer = [] := processLine_lineBuffer _ first
        have read := ih following (later (.inr feed)) fun _ => cleared
        obtain ⟨buffer, mode, hunks, lineNumber⟩ := following
        obtain rfl : buffer = [] := cleared
        exact read
    · have more : text ≠ [] := by
        rintro rfl
        simp [feed] at ends
      simp only [cons_append, foldlM_cons, pushCharacter, linesFrom, feed, if_false]
      exact ih _ (later (.inl more)) fun none => absurd none more

theorem push_characters {chars : List Char} (noFeed : '\n' ∉ chars) :
    chars.foldlM pushCharacter parser =
      .ok { parser with lineBuffer := parser.lineBuffer ++ chars } := by
  induction chars generalizing parser with
  | nil => simp; rfl
  | cons char chars ih =>
    rw [mem_cons, not_or] at noFeed
    simp only [foldlM_cons, pushCharacter, Ne.symm noFeed.1, if_false, bind, Except.bind]
    rw [ih _ noFeed.2]
    simp only [append_assoc, singleton_append]

theorem foldlM_readLine_lineBuffer {lines : List String}
    (parser last : StreamingPatchParser) (ready : parser.lineBuffer = [])
    (read : lines.foldlM readLine parser = .ok last) : last.lineBuffer = [] := by
  induction lines generalizing parser with
  | nil =>
    obtain rfl := Except.ok.inj read
    exact ready
  | cons line rest ih =>
    rw [foldlM_cons] at read
    obtain ⟨following, first, read⟩ := bind_eq_ok read
    exact ih following (processLine_lineBuffer _ first) read

theorem pushDeltas_eq (deltas : List String) (parser : StreamingPatchParser) :
    deltas.foldlM pushDelta parser =
      (deltas.flatMap String.toList).foldlM pushCharacter parser := by
  induction deltas generalizing parser with
  | nil => rfl
  | cons delta deltas ih =>
    rw [foldlM_cons, flatMap_cons, foldlM_append]
    simp only [pushDelta, ih]

/-! ## Framed patch texts -/

/--
A patch text with its first line, the lines of its hunks and its last line,
which may or may not be terminated.
-/
structure PatchFrame where
  first : String
  body : String
  last : String
  terminated : Bool
  firstLine : '\n' ∉ first.toList
  lastLine : '\n' ∉ last.toList
  bodyLines : endsLine body = true
  begins : trim first = beginPatchMarker
  ends : trim last = endPatchMarker

def PatchFrame.text (frame : PatchFrame) : String :=
  frame.first ++ "\n" ++ frame.body ++ frame.last ++
    if frame.terminated then "\n" else ""

/-- Whether the lines of the hunks, after a preamble, are harmless. -/
def hunkLinesHarmless (hunkLines : List String) : Bool :=
  match hunkLines with
  | [] => true
  | line :: rest =>
    if startsWith (trimStart line) environmentIdMarker then
      startsWith line environmentIdMarker && linesHarmless .outside rest
    else linesHarmless .outside hunkLines

/-- The lines that are read as hunks. -/
def afterPreamble (hunkLines : List String) : List String :=
  match hunkLines with
  | [] => []
  | line :: rest =>
    if startsWith (trimStart line) environmentIdMarker then rest
    else hunkLines

/--
All lines of the hunks are harmless, and a terminated last line is not indented
where an update hunk comes before it.
-/
def PatchFrame.Harmless (frame : PatchFrame) : Prop := hunkLinesHarmless (lines frame.body) = true ∧
    (frame.terminated = true → (afterPreamble (lines frame.body)).foldl nextPosition .outside =
          .outside ∨
        trimEnd frame.last = endPatchMarker)

instance (frame : PatchFrame) : Decidable frame.Harmless :=
  inferInstanceAs (Decidable (_ ∧ (_ → _ ∨ _)))

/-! ## The batch parser on a frame -/

theorem isBlank_of_trim {line core : String} (trimmed : trim line = core)
    (nonempty : core ≠ "") : isBlank line = false := by
  rw [isBlank, trimmed, Bool.eq_false_iff, Ne, String.isEmpty_iff]
  exact nonempty

theorem lines_of_single {text : String} (noFeed : '\n' ∉ text.toList)
    (nonempty : text ≠ "") : lines text = [text] := by
  have collected : ∀ (chars current : List Char),
      '\n' ∉ chars → current ++ chars ≠ [] →
        linesFrom current chars = [current ++ chars] := by
    intro chars
    induction chars with
    | nil =>
      intro current _ someText
      simp only [append_nil] at someText ⊢
      simp [linesFrom, someText]
    | cons char rest ih =>
      intro current plain someText
      rw [mem_cons, not_or] at plain
      rw [linesFrom, if_neg (Ne.symm plain.1), ih _ plain.2 (by simp)]
      simp
  rw [lines, collected text.toList [] noFeed (by simpa using nonempty)]
  simp

variable (frame : PatchFrame)

theorem PatchFrame.trim_text : trim frame.text =
      trimStart frame.first ++ "\n" ++ frame.body ++ trimEnd frame.last := by
  have firstVisible := isBlank_of_trim frame.begins (by decide)
  have lastVisible := isBlank_of_trim frame.ends (by decide)
  have ending : isBlank (if frame.terminated then "\n" else "") = true := by
    split <;> decide +kernel
  rw [trim, PatchFrame.text]
  simp only [String.append_assoc]
  rw [trimStart_append, if_neg (Bool.eq_false_iff.mp firstVisible)]
  simp only [← String.append_assoc]
  rw [trimEnd_append, if_pos ending, trimEnd_append, if_neg (Bool.eq_false_iff.mp lastVisible)]

theorem PatchFrame.lines_trim_text : lines (trim frame.text) =
      String.ofList (stripCarriageReturn (trimStart frame.first).toList) ::
        (lines frame.body ++ [trimEnd frame.last]) := by
  have noFeed : '\n' ∉ (trimStart frame.first).toList := by
    rw [toList_trimStart]
    exact fun mem => frame.firstLine ((dropWhile_sublist _).subset mem)
  have lastNoFeed : '\n' ∉ (trimEnd frame.last).toList := by
    rw [toList_trimEnd]
    exact fun mem => frame.lastLine (( rdropWhile_prefix _ _).subset mem)
  have lastNonempty : trimEnd frame.last ≠ "" := by
    intro empty
    have ends := trim_trimEnd frame.last
    rw [empty, frame.ends] at ends
    exact absurd ends (by decide +kernel)
  have shape : (trim frame.text).toList = (trimStart frame.first).toList ++
        '\n' :: (frame.body ++ trimEnd frame.last).toList := by
    rw [frame.trim_text]
    simp
  have rest := lines_append (trimEnd frame.last) frame.bodyLines
  rw [lines_of_single lastNoFeed lastNonempty] at rest
  rw [lines, shape, linesFrom_line [] _ _ noFeed, nil_append, map_cons, ← rest]
  rfl

theorem PatchFrame.checkPatchBoundariesLenient_eq :
    ∃ patchLines, checkPatchBoundariesLenient (lines (trim frame.text)) =
      .ok (patchLines, lines frame.body) := by
  have firstTrimmed : trim (String.ofList (stripCarriageReturn
      (trimStart frame.first).toList)) = beginPatchMarker := by
    rw [(trim_stripCarriageReturn _).1, trim_trimStart, frame.begins]
  have lastTrimmed := (trim_trimEnd frame.last).trans frame.ends
  refine ⟨lines (trim frame.text), ?_⟩
  rw [frame.lines_trim_text]
  have checked : checkStartAndEndLinesStrict (some (String.ofList (stripCarriageReturn
        (trimStart frame.first).toList)))
      (some (trimEnd frame.last)) = .ok () := by
    simp [checkStartAndEndLinesStrict, firstTrimmed, lastTrimmed]
  have ending : (String.ofList (stripCarriageReturn (trimStart frame.first).toList) ::
        (lines frame.body ++ [trimEnd frame.last])).getLast? = some (trimEnd frame.last) := by
    rw [← cons_append, getLast?_concat]
  simp only [checkPatchBoundariesLenient, checkPatchBoundariesStrict,
    head?_cons, ending, checked, bind, Except.bind, pure, Except.pure,
    tail_cons, dropLast_concat]

theorem afterPreamble_eq {hunkLines remaining : List String}
    {environmentId : Option String} {lineNumber : Nat}
    (read : parseEnvironmentIdPreamble hunkLines = .ok (environmentId, remaining, lineNumber)) :
    afterPreamble hunkLines = remaining := by
  cases hunkLines with
  | nil => cases read; rfl
  | cons line rest =>
    simp only [parseEnvironmentIdPreamble] at read
    simp only [afterPreamble, startsWith_eq_isSome]
    split at read
    next missing =>
      cases read
      simp [missing]
    next identifier found =>
      split at read
      next => cases read
      next =>
        cases read
        simp [found]

/-- What acceptance by the batch parser says about the lines of the hunks. -/
theorem PatchFrame.outcome_of_accepted
    {args : ApplyPatchArgs} (accepted : parsePatch frame.text = .ok args) :
    LineState.outcome (.closed []) (afterPreamble (lines frame.body)) = some args.hunks := by
  obtain ⟨patchLines, boundaries⟩ := frame.checkPatchBoundariesLenient_eq
  rw [parsePatch] at accepted
  obtain ⟨_, bounds, accepted⟩ := bind_eq_ok accepted
  obtain rfl := Except.ok.inj (boundaries.symm.trans bounds)
  obtain ⟨⟨environmentId, remaining, lineNumber⟩, preamble, accepted⟩ := bind_eq_ok accepted
  obtain ⟨result, hunks, accepted⟩ := bind_eq_ok accepted
  obtain rfl := Except.ok.inj accepted
  rw [afterPreamble_eq preamble]
  exact outcome_of_parseHunks [] result lineNumber remaining (le_refl _) hunks

/-! ## The streaming parser on a frame -/

/-- The parser after the first line. -/
def startedParser : StreamingPatchParser := ⟨[], .startedPatch, [], 1⟩

theorem aligned_startedParser : Aligned (.closed []) startedParser :=
  ⟨by simp [Sound], Or.inl ⟨rfl, rfl, rfl⟩, rfl⟩

/-- What is left to read after the lines of the hunks. -/
def PatchFrame.close (frame : PatchFrame) (parser : StreamingPatchParser) :
    Except ParseError (List Hunk) :=
  if frame.terminated then
    (readLine parser (String.ofList (stripCarriageReturn frame.last.toList))).bind finish
  else finish { parser with lineBuffer := frame.last.toList }

theorem PatchFrame.parseDeltas_eq {deltas : List String}
    (cut : deltas.flatMap String.toList = frame.text.toList) :
    parseDeltas deltas = ((lines frame.body).foldlM readLine startedParser).bind
        frame.close := by
  have shape : frame.text.toList = (frame.first.toList ++ '\n' :: frame.body.toList) ++
      (frame.last.toList ++ if frame.terminated then ['\n'] else []) := by
    unfold PatchFrame.text
    split <;> simp
  have ends : (frame.first.toList ++ '\n' :: frame.body.toList).getLast?.all (· == '\n') =
      true := by
    rw [getLast?_append_cons]
    cases body : frame.body.toList with
    | nil => rfl
    | cons char rest =>
      rw [getLast?_cons_cons, ← body]
      exact frame.bodyLines
  have begun : readLine initial (String.ofList
      (stripCarriageReturn (initial.lineBuffer ++ frame.first.toList))) = .ok startedParser := by
    have trimmed := (trim_stripCarriageReturn frame.first).1.trans frame.begins
    simp only [readLine, processLine, initial, nil_append, trimmed, if_true]
    rfl
  rw [parseDeltas, pushDeltas_eq, cut, shape, push_text initial _ _ ends fun _ => rfl,
    linesFrom_line _ _ _ frame.firstLine, map_cons, foldlM_cons]
  have start : { initial with lineBuffer := [] } = initial := rfl
  rw [start, begun]
  simp only [bind, Except.bind]
  rw [← lines]
  cases read : (lines frame.body).foldlM readLine startedParser with
  | error problem => rfl
  | ok parser =>
    have ready := foldlM_readLine_lineBuffer _ parser rfl read
    simp only [Except.bind, PatchFrame.close]
    cases frame.terminated with
    | true =>
      simp only [if_true]
      rw [← append_nil (_ ++ ['\n']), push_text parser _ [] (by simp) (by simp), ready,
        linesFrom_line _ _ _ frame.lastLine]
      show Except.bind (Except.bind ((readLine parser _).bind _) _) _ = _
      rw [nil_append]
      cases readLine parser (String.ofList (stripCarriageReturn frame.last.toList)) <;> rfl
    | false =>
      simp only [Bool.false_eq_true, if_false, append_nil]
      rw [push_characters parser frame.lastLine, ready, nil_append]

theorem body_run {hunkLines : List String} {final : LineState}
    (ran : (afterPreamble hunkLines).foldlM LineState.step (.closed []) = some final) :
    (hunkLinesHarmless hunkLines = true →
      ∃ last, hunkLines.foldlM readLine startedParser = .ok last ∧ Aligned final last ∧
        position final = (afterPreamble hunkLines).foldl nextPosition .outside) ∧
      (hunkLinesHarmless hunkLines = false →
        ∀ last, hunkLines.foldlM readLine startedParser = .ok last → Forked final last) := by
  cases hunkLines with
  | nil => exact aligned_run (.closed []) _ aligned_startedParser ran
  | cons line rest =>
    simp only [afterPreamble] at ran ⊢
    simp only [hunkLinesHarmless]
    by_cases preamble : startsWith (trimStart line) environmentIdMarker = true
    · simp only [preamble, if_true] at ran ⊢
      by_cases plain : startsWith line environmentIdMarker = true
      · have skipped : readLine startedParser line =
            .ok { startedParser with lineNumber := 2 } := by
          simp [readLine, processLine, startedParser, plain]
        simp only [plain, Bool.true_and, foldlM_cons, skipped, bind, Except.bind]
        exact aligned_run (.closed []) _
          ⟨aligned_startedParser.sound, aligned_startedParser.fits, rfl⟩ ran
      · -- The indented preamble is no header either.
        have indented := Bool.eq_false_iff.mpr plain
        obtain ⟨after, shape⟩ := startsWith_environmentId _ preamble
        rw [trim_trimStart] at shape
        have nothing := opensNothing_of_environmentId shape
        have refused : ∀ last, (line :: rest).foldlM readLine startedParser ≠ .ok last := by
          intro last
          simp only [foldlM_cons, readLine, processLine, startedParser, indented,
            handleHunkHeadersAndEndPatch_of_opensNothing _ nothing,
            bind, Except.bind]
          exact fun impossible => by cases impossible
        simp only [indented, Bool.false_and, Bool.false_eq_true, false_implies, true_and]
        exact fun _ last read => absurd read (refused last)
    · simp only [preamble] at ran ⊢
      exact aligned_run (.closed []) _ aligned_startedParser ran

theorem finish_of_ready (ready : parser.lineBuffer = []) : finish parser =
      if parser.mode = .endedPatch then .ok parser.hunks
      else .error (.invalidPatchError lastLineMessage) := by
  simp only [finish, finishLine, ready, isEmpty_nil, if_true, bind, Except.bind]
  split <;> rfl

theorem finish_of_last {last : String} (ends : trim last = endPatchMarker) :
    finish { parser with lineBuffer := last.toList } = (ensureUpdateHunkIsNotEmpty { parser with
          lineBuffer := []
          lineNumber := parser.lineNumber + 1 } endPatchMarker).map
        fun _ => parser.hunks := by
  have nonempty : last.toList.isEmpty = false := by
    rw [isEmpty_eq_false_iff, Ne, String.toList_eq_nil_iff]
    rintro rfl
    exact absurd ends (by decide +kernel)
  simp only [finish, finishLine, nonempty, Bool.false_eq_true, if_false,
    String.ofList_toList, ends, if_true, bind, Except.bind]
  cases ensureUpdateHunkIsNotEmpty { parser with
      lineBuffer := []
      lineNumber := parser.lineNumber + 1 } endPatchMarker <;> rfl

/-- Closing an aligned parser gives the hunks where the end is seen. -/
theorem PatchFrame.close_of_aligned {final : LineState} {parser : StreamingPatchParser}
    (aligned : Aligned final parser) (complete : final.Complete) :
    frame.close parser = .ok final.hunks ↔ (frame.terminated = true →
        position final = .outside ∨ trimEnd frame.last = endPatchMarker) := by
  have ready := readLine_of_aligned aligned
  have ensured := ensure_of_aligned final _ ready complete endPatchMarker
  obtain ⟨trimmed, sameEnd⟩ := trim_stripCarriageReturn frame.last
  obtain ⟨seen, unseen⟩ := processLine_endPatch ready.fits (trimmed.trans frame.ends)
  rw [sameEnd] at seen unseen
  rw [PatchFrame.close]
  cases frame.terminated with
  | false =>
    simp only [Bool.false_eq_true, if_false, false_implies, iff_true]
    rw [finish_of_last parser frame.ends, ensured, aligned.same]
    rfl
  | true =>
    simp only [if_true, forall_const]
    constructor
    · intro closed
      by_contra hidden
      obtain ⟨following, read, closed⟩ := bind_eq_ok closed
      have cleared : following.lineBuffer = [] := processLine_lineBuffer _ read
      rw [finish_of_ready following cleared, if_neg (unseen hidden following read)] at closed
      cases closed
    · intro visible
      have read : readLine parser (String.ofList
          (stripCarriageReturn frame.last.toList)) = _ := seen visible
      rw [read, ensured]
      simp only [Except.map, Except.bind]
      rw [finish_of_ready _ rfl, if_pos rfl, aligned.same]

theorem PatchFrame.close_of_forked {final : LineState}
    {parser : StreamingPatchParser} (forked : Forked final parser) :
    frame.close parser ≠ .ok final.hunks := by
  have ready := readLine_of_forked forked
  have other := forked.ne
  intro closed
  rw [PatchFrame.close] at closed
  split at closed
  next =>
    obtain ⟨trimmed, -⟩ := trim_stripCarriageReturn frame.last
    obtain ⟨seen, unseen⟩ := processLine_endPatch ready.fits (trimmed.trans frame.ends)
    obtain ⟨following, read, closed⟩ := bind_eq_ok closed
    have cleared : following.lineBuffer = [] := processLine_lineBuffer _ read
    rw [finish_of_ready following cleared] at closed
    split at closed
    next ended =>
      have visible := Decidable.not_not.mp fun hidden => unseen hidden following read ended
      have same : readLine parser (String.ofList
          (stripCarriageReturn frame.last.toList)) = _ := seen visible
      obtain ⟨-, -, rfl⟩ := map_eq_ok (same.symm.trans read)
      exact other (Except.ok.inj closed)
    next => cases closed
  next =>
    rw [finish_of_last parser frame.ends] at closed
    obtain ⟨-, -, same⟩ := map_eq_ok closed
    exact other same

/--
For a patch that the batch parser accepts, and every way of cutting it into
deltas, the streaming parser returns the same hunks exactly when the lines of
the patch are harmless.
-/
theorem streaming_parser_agrees_iff (frame : PatchFrame)
    (args : ApplyPatchArgs) (accepted : parsePatch frame.text = .ok args)
    (deltas : List String)
    (cut : deltas.flatMap String.toList = frame.text.toList) :
    parseDeltas deltas = .ok args.hunks ↔ frame.Harmless := by
  have reached := frame.outcome_of_accepted accepted
  simp only [LineState.outcome, bind_eq_bind, bind_eq_some_iff] at reached
  obtain ⟨final, ran, ending⟩ := reached
  split at ending
  next complete =>
    obtain same := Option.some.inj ending
    obtain ⟨keeps, forks⟩ := body_run ran
    rw [frame.parseDeltas_eq cut, PatchFrame.Harmless, ← same]
    cases safe : hunkLinesHarmless (lines frame.body) with
    | true =>
      obtain ⟨parser, read, aligned, moved⟩ := keeps safe
      simp only [read, Except.bind, true_and, ← moved]
      exact frame.close_of_aligned aligned complete
    | false =>
      simp only [Bool.false_eq_true, false_and, iff_false]
      cases read : (lines frame.body).foldlM readLine startedParser with
      | error problem => exact fun impossible => by cases impossible
      | ok parser => exact frame.close_of_forked (forks safe parser read)
  next => cases ending

/-! ## Sample patches -/

/-- A frame with the usual first and last line. -/
def plainFrame (body : String) (bodyLines : endsLine body = true) : PatchFrame where
  first := "*** Begin Patch"
  body := body
  last := "*** End Patch"
  terminated := true
  firstLine := by decide +kernel
  lastLine := by decide +kernel
  bodyLines := bodyLines
  begins := by decide +kernel
  ends := by decide +kernel

/-- A patch with one update, harmless in all its lines. -/
def harmlessFrame : PatchFrame :=
  plainFrame "*** Update File: a\n*** Move to: b\n@@ top\n-x\n+y\n\n" (by decide +kernel)

def blankLineFrame : PatchFrame :=
  plainFrame "*** Update File: a\n\n@@ top\n-x\n+y\n" (by decide +kernel)

/-- The hunk of the first patch, cut inside its lines. -/
theorem streaming_parser_agrees_sample : parseDeltas
        ["*** Begin Pa", "tch\n*** Update File: a\n*** Move to: ",
          "b\n@@ top\n-", "x\n+y\n\n*** End Patch\n"] =
      .ok [.updateFile "a" (some "b") [⟨some "top", ["x", ""], ["y", ""], false⟩]] :=
  (streaming_parser_agrees_iff harmlessFrame ⟨[.updateFile "a" (some "b")
        [⟨some "top", ["x", ""], ["y", ""], false⟩]],
      "*** Begin Patch\n*** Update File: a\n*** Move to: b\n@@ top\n-x\n+y\n\n*** End Patch",
      none, none⟩ (by decide +kernel) _ (by decide +kernel)).mpr
    (by decide +kernel)

/-- The blank line becomes a chunk of its own in the streaming parser. -/
theorem streaming_parser_enters_blank_line : (parsePatch blankLineFrame.text).map (·.hunks) =
        .ok [.updateFile "a" none [⟨some "top", ["x"], ["y"], false⟩]] ∧
      parseDeltas [blankLineFrame.text] = .ok [.updateFile "a" none [⟨none, [""], [""], false⟩,
            ⟨some "top", ["x"], ["y"], false⟩]] := by
  decide +kernel

end Codex.ApplyPatch.ParserAgreement
