import Codex.ApplyPatch.UpdateLines

/-!
# The streaming parser follows the line machine

Line by line the streaming parser is either aligned with the batch parser, with
the same hunks in the corresponding mode, or forked from it, with hunks that
cannot become the same again.  A harmless line keeps it aligned, a harmful one
stops it or makes it fork, and a forked parser stays so.
-/

namespace Codex.ApplyPatch.LineSimulation

open Rust.Text Rust.Lines Rust.Trimming Patch LineMachine Streaming List Option
  UpdateLines LineState StreamingPatchParser

/-! ## Positions -/

/-- The position of the line that a state reads next. -/
def position : LineState → Position
  | .updating _ _ _ _ place => placePosition place
  | _ => .outside

def headerPosition (line : String) : Position :=
  if (stripPrefix? (trim line) addFileMarker).isSome then .outside
  else if (stripPrefix? (trim line) deleteFileMarker).isSome then .outside
  else if (stripPrefix? (trim line) updateFileMarker).isSome then .updateStart
  else .outside

def betweenPosition (line : String) : Position :=
  if isBlank line then .beforeChunk
  else if startsWith line "*" then headerPosition line
  else .inChunk

def nextPosition (position : Position) (line : String) : Position :=
  match position with
  | .outside => headerPosition line
  | .updateStart =>
    if startsWith line moveToMarker then .beforeChunk
    else betweenPosition line
  | .beforeChunk => betweenPosition line
  | .inChunk =>
    if line = eofMarker then .beforeChunk
    else if (contentEdit line).isSome then .inChunk
    else betweenPosition line

/-- Whether all lines are harmless where they stand. -/
def linesHarmless : Position → List String → Bool
  | _, [] => true
  | position, line :: rest =>
      harmless position line && linesHarmless (nextPosition position line) rest

variable (state : LineState) (parser : StreamingPatchParser) (hunks : List Hunk)
  (movePath : Option String) (next : LineState) (line : String)

theorem headerPosition_of_head (noStar : (trim line).toList.head? ≠ some '*') :
    headerPosition line = .outside := by
  have nothing := opensNothing_of_head noStar
  simp [headerPosition, nothing.noAdd, nothing.noDelete, nothing.noUpdate]

theorem opensNothing_of_plus {tail : List Char} (plus : line.toList = '+' :: tail) :
    (trim line).toList.head? ≠ some '*' := by
  rw [trim_eq_trimEnd line '+' tail plus (by decide)]
  intro star
  have first := head?_trimEnd line '*' star
  rw [plus] at first
  exact absurd (Option.some.inj first) (by decide)

theorem harmlessBetween_of_contentEdit {line : String} {edit : UpdateFileChunk → UpdateFileChunk}
    (visible : isBlank line = false) (content : contentEdit line = some edit) :
    harmlessBetween line = true := by
  have plain : startsWith line "@@" = false := by
    rw [startsWith_eq_isSome, stripPrefix?_eq_none_of_head _ _ '@' rfl
      (head?_of_contentEdit content).2]
    rfl
  simp [harmlessBetween, visible, plain]

variable {nextChunks : List UpdateFileChunk} {nextMove : Option String} {nextPlace : Place}
  {chunks : List UpdateFileChunk}

theorem betweenLine_stays {line : String} {movePath : Option String} (place : Place)
    (filled : ∀ chunk ∈ chunks, hasLines chunk)
    (stays : betweenLine movePath chunks line = .stays nextMove nextChunks nextPlace) :
    Effect line place movePath chunks (harmlessBetween line) nextMove
        (nextChunks ++ nextPlace.chunks) ∧
      SoundBody nextMove nextChunks nextPlace ∧ nextPlace ≠ .start ∧
      placePosition nextPlace = betweenPosition line := by
  rw [betweenLine] at stays
  split at stays
  next blank =>
    obtain ⟨rfl, rfl, rfl⟩ := BodyStep.stays.inj stays
    have skipped : harmlessBetween line = false := by simp [harmlessBetween, blank]
    rw [skipped]
    refine ⟨?_, ⟨filled, by simp⟩, by simp, by simp [betweenPosition, blank, placePosition]⟩
    simpa [Place.chunks] using Effect.skip blank
  next notBlank =>
    have visible := Bool.eq_false_iff.mpr notBlank
    split at stays
    next =>
      split at stays
      next => cases stays
      next => cases stays
    next inside =>
      have opened : betweenPosition line = .inChunk := by simp [betweenPosition, visible, inside]
      rw [openChunk] at stays
      split at stays
      next context opens =>
        obtain ⟨rfl, rfl, rfl⟩ := BodyStep.stays.inj stays
        have harmless : harmlessBetween line = (trimEnd line == line) := by
          simp [harmlessBetween, visible, startsWith_of_openingContext opens]
        rw [harmless]
        exact ⟨Effect.context context opens filled, ⟨filled, by simp⟩, by simp, opened.symm⟩
      next =>
        split at stays
        next none =>
          split at stays
          next edit content =>
            obtain ⟨rfl, rfl, rfl⟩ := BodyStep.stays.inj stays
            rw [harmlessBetween_of_contentEdit visible content]
            subst none
            exact ⟨Effect.content edit content, ⟨filled, by simp⟩, by simp, opened.symm⟩
          next => cases stays
        next => cases stays

theorem effect_of_stays {movePath : Option String} {place : Place} {line : String}
    (sound : SoundBody movePath chunks place)
    (stays : bodyLine movePath chunks place line = .stays nextMove nextChunks nextPlace) :
    Effect line place movePath (chunks ++ place.chunks)
        (harmless (placePosition place) line) nextMove
        (nextChunks ++ nextPlace.chunks) ∧
      SoundBody nextMove nextChunks nextPlace ∧ nextPlace ≠ .start ∧
      placePosition nextPlace = nextPosition (placePosition place) line := by
  cases place with
  | start =>
    simp only [bodyLine] at stays
    simp only [placePosition, harmless, nextPosition, startsWith_eq_isSome, Place.chunks,
      append_nil]
    cases moves : stripPrefix? line moveToMarker with
    | some path =>
      rw [moves] at stays
      obtain ⟨rfl, rfl, rfl⟩ := BodyStep.stays.inj stays
      refine ⟨?_, ⟨sound.filled, by simp⟩, by simp, rfl⟩
      simpa [Place.chunks] using @Effect.move line .start movePath chunks path rfl moves
    | none =>
      rw [moves] at stays
      simp only [isSome_none, Bool.false_eq_true, if_false]
      exact betweenLine_stays .start sound.filled stays
  | between =>
    simp only [bodyLine] at stays
    simp only [placePosition, harmless, nextPosition, Place.chunks, append_nil]
    exact betweenLine_stays .between sound.filled stays
  | within chunk =>
    simp only [bodyLine, withinLine] at stays
    simp only [placePosition, harmless, nextPosition, Place.chunks]
    split at stays
    next ending =>
      split at stays
      next filled =>
        obtain ⟨rfl, rfl, rfl⟩ := BodyStep.stays.inj stays
        refine ⟨?_, ⟨?_, by simp⟩, by simp, by simp [ending]⟩
        · simpa [ending, Place.chunks] using @Effect.endOfFile line (.within chunk) movePath
              (chunks ++ [chunk]) chunks chunk ending rfl filled
        · intro other mem
          rcases mem_append.mp mem with old | last
          · exact sound.filled other old
          · obtain rfl := mem_singleton.mp last
            exact filled
      next => cases stays
    next going =>
      split at stays
      next edit content =>
        obtain ⟨rfl, rfl, rfl⟩ := BodyStep.stays.inj stays
        refine ⟨?_, ⟨sound.filled, by simp⟩, by simp, by simp [going, content]⟩
        simpa [content, Place.chunks] using @Effect.content line (.within chunk) movePath
            (chunks ++ [chunk]) edit content
      next content =>
        split at stays
        next filled =>
          have closed : ∀ other ∈ chunks ++ [chunk], hasLines other := by
            intro other mem
            rcases mem_append.mp mem with old | last
            · exact sound.filled other old
            · obtain rfl := mem_singleton.mp last
              exact filled
          have reads : (line == eofMarker || (contentEdit line).isSome ||
              harmlessBetween line) = harmlessBetween line := by
            simp [going, content]
          rw [reads]
          simp only [going, content, isSome_none, Bool.false_eq_true, if_false]
          exact betweenLine_stays (.within chunk) closed stays
        next => cases stays

variable {chunks closed : List UpdateFileChunk}

theorem betweenLine_leaves {line : String}
    (leaves : betweenLine movePath chunks line = .leaves closed) :
    closed = chunks ∧ chunks ≠ [] ∧ isBlank line = false ∧ startsWith line "*" = true := by
  rw [betweenLine] at leaves
  split at leaves
  next => cases leaves
  next visible =>
    split at leaves
    next star =>
      split at leaves
      next => cases leaves
      next someChunk =>
        obtain rfl := BodyStep.leaves.inj leaves
        exact ⟨rfl, someChunk, Bool.eq_false_iff.mpr visible, star⟩
    next =>
      rw [openChunk] at leaves
      split at leaves
      · cases leaves
      · split at leaves
        · split at leaves
          · cases leaves
          · cases leaves
        · cases leaves

theorem head?_of_star (star : startsWith line "*" = true) : line.toList.head? = some '*' := by
  rw [startsWith, isPrefixOf_iff_prefix] at star
  obtain ⟨rest, whole⟩ := star
  rw [← whole]
  rfl

theorem betweenPosition_of_leaves
    (visible : isBlank line = false) (star : startsWith line "*" = true) :
    betweenPosition line = headerPosition line ∧ harmlessBetween line = true := by
  have noAt : startsWith line "@@" = false := by
    rw [startsWith_eq_isSome, stripPrefix?_eq_none_of_head _ _ '@' rfl
      (by rw [head?_of_star line star]; decide)]
    rfl
  exact ⟨by simp [betweenPosition, visible, star], by simp [harmlessBetween, visible, noAt]⟩

theorem bodyLine_leaves (path : String) {place : Place}
    {line : String} (sound : SoundBody movePath chunks place)
    (leaves : bodyLine movePath chunks place line = .leaves closed) :
    closed = chunks ++ place.chunks ∧
      (LineState.updating hunks path movePath chunks place).Complete ∧ startsWith line "*" = true ∧
      harmless (placePosition place) line = true ∧
      nextPosition (placePosition place) line = headerPosition line := by
  cases place with
  | start =>
    exfalso
    obtain ⟨rfl, -⟩ := sound.fresh rfl
    simp only [bodyLine] at leaves
    split at leaves
    next => cases leaves
    next =>
      obtain ⟨rfl, someChunk, -, -⟩ := betweenLine_leaves _ leaves
      exact someChunk rfl
  | between =>
    obtain ⟨rfl, someChunk, visible, star⟩ := betweenLine_leaves _ leaves
    obtain ⟨moved, safe⟩ := betweenPosition_of_leaves line visible star
    exact ⟨by simp [Place.chunks], someChunk, star, safe, moved⟩
  | within chunk =>
    simp only [bodyLine, withinLine] at leaves
    split at leaves
    next =>
      split at leaves
      · cases leaves
      · cases leaves
    next going =>
      split at leaves
      next => cases leaves
      next content =>
        split at leaves
        next filled =>
          obtain ⟨rfl, -, visible, star⟩ := betweenLine_leaves _ leaves
          obtain ⟨moved, safe⟩ := betweenPosition_of_leaves line visible star
          refine ⟨rfl, filled, star, ?_, ?_⟩
          · simp [placePosition, harmless, safe]
          · simp [placePosition, nextPosition, going, content, moved]
        next => cases leaves

/-! ## Alignment -/

/-- What holds of every state that the machine reaches. -/
def Sound : LineState → Prop
  | .closed hunks => ∀ last, hunks.getLast? = some last → ∃ path, last = .deleteFile path
  | .adding _ _ _ => True
  | .updating _ _ movePath chunks place => SoundBody movePath chunks place

/-- The mode in which the streaming parser reads what the state reads. -/
def ModeFits (state : LineState) (parser : StreamingPatchParser) : Prop :=
  match state with
  | .closed hunks =>
    (parser.mode = .startedPatch ∧ parser.hunks = [] ∧ hunks = []) ∨ parser.mode = .deleteFile
  | .adding _ _ _ => parser.mode = .addFile
  | .updating _ _ _ _ _ => ∃ lineNumber, parser.mode = .updateFile lineNumber

/-- The streaming parser has the hunks of the state. -/
structure Aligned (state : LineState) (parser : StreamingPatchParser) : Prop where
  sound : Sound state
  fits : ModeFits state parser
  same : parser.hunks = state.hunks

/-- Hunks that cannot become those of the state again. -/
def Differs (state : LineState) (hunks : List Hunk) : Prop :=
  match state with
  | .closed finished => hunks ≠ finished
  | .adding finished path contents =>
    ∃ front, hunks = front ++ [.addFile path contents] ∧ front ≠ finished
  | .updating finished path movePath chunks place =>
    ∃ front streamed, hunks = front ++ [.updateFile path streamed.1 streamed.2] ∧
        (front ≠ finished ∨ (place ≠ .start ∧ Apart (movePath, chunks ++ place.chunks) streamed))

/-- The streaming parser has as many hunks as the state, and others. -/
structure Forked (state : LineState) (parser : StreamingPatchParser) : Prop where
  sound : Sound state
  fits : ModeFits state parser
  counted : parser.hunks.length = state.hunks.length
  differs : Differs state parser.hunks

theorem Forked.ne {state : LineState} {parser : StreamingPatchParser}
    (forked : Forked state parser) : parser.hunks ≠ state.hunks := by
  have differs := forked.differs
  cases state with
  | closed hunks => exact differs
  | adding hunks path contents =>
    obtain ⟨front, shape, other⟩ := differs
    rw [shape]
    intro same
    exact other (append_inj_left' same rfl)
  | updating hunks path movePath chunks place =>
    obtain ⟨front, streamed, shape, other⟩ := differs
    rw [shape]
    intro same
    rcases other with elsewhere | ⟨-, apart⟩
    · exact elsewhere (append_inj_left' same rfl)
    · have last := append_inj_right' same rfl
      simp only [List.cons.injEq, Hunk.updateFile.injEq, and_true, true_and] at last
      exact ne_of_apart apart (Prod.ext last.1 last.2)

/-! ## Headers -/

theorem startsWith_environmentId (preamble : startsWith line environmentIdMarker = true) :
    ∃ rest, (trim line).toList = "*** Environment ID:".toList ++ rest := by
  rw [startsWith, isPrefixOf_iff_prefix] at preamble
  obtain ⟨rest, whole⟩ := preamble
  have shape : line.toList = "*** Environment ID:".toList ++ (' ' :: rest) := by
    rw [← whole]
    simp [environmentIdMarker]
  refine ⟨(' ' :: rest).rdropWhile isWhiteSpace, ?_⟩
  rw [trim_eq_trimEnd line '*' _ (by rw [shape]; rfl) (by decide)]
  exact toList_trimEnd_append line _ _ ':' shape (by decide +kernel) (by decide)

/-- A preamble line is no header and does not end the patch. -/
theorem opensNothing_of_environmentId {text : String} {rest : List Char}
    (preamble : text.toList = "*** Environment ID:".toList ++ rest) : OpensNothing text := by
  have fourth : text.toList[4]? = some 'E' := by rw [preamble]; rfl
  have sixth : text.toList[6]? = some 'v' := by rw [preamble]; rfl
  refine ⟨?_, stripPrefix?_eq_none_of_getElem _ _ 4 'E' 'A' fourth rfl (by decide),
    stripPrefix?_eq_none_of_getElem _ _ 4 'E' 'D' fourth rfl (by decide),
    stripPrefix?_eq_none_of_getElem _ _ 4 'E' 'U' fourth rfl (by decide)⟩
  rintro rfl
  exact absurd (Option.some.inj sixth) (by decide)

/--
A header opens a hunk in both parsers.  The new hunk is the same; whether the
parser is aligned or forked afterwards depends on the hunks before it.
-/
theorem header_step (next : LineState) (opened : header hunks line = some next) :
    startsWith line environmentIdMarker = false ∧ position next = headerPosition line ∧
      ∃ advance : StreamingPatchParser → StreamingPatchParser,
        (∀ parser, handleHunkHeadersAndEndPatch parser (trim line) =
          (ensureUpdateHunkIsNotEmpty parser (trim line)).map fun _ => some (advance parser)) ∧
        (∀ parser, parser.hunks = hunks → Aligned next (advance parser)) ∧
        ∀ parser, parser.hunks.length = hunks.length →
          parser.hunks ≠ hunks → Forked next (advance parser) := by
  constructor
  · by_contra preamble
    obtain ⟨rest, shape⟩ := startsWith_environmentId line (by simpa using preamble)
    have nothing := opensNothing_of_environmentId shape
    simp [header, nothing.noAdd, nothing.noDelete, nothing.noUpdate] at opened
  · have notEnd : ∀ marker path, stripPrefix? (trim line) marker =
        some path → marker.toList[4]? ≠ some 'E' → marker.toList[4]? ≠ none →
          trim line ≠ endPatchMarker := by
      intro marker path found other within same
      rw [same] at found
      obtain ⟨letter, here⟩ := ne_none_iff_exists'.mp within
      rw [stripPrefix?_eq_none_of_getElem endPatchMarker marker 4 'E' letter
        rfl here (fun equal => other (equal ▸ here))] at found
      cases found
    rw [header] at opened
    split at opened
    next path found =>
      obtain rfl := Option.some.inj opened
      have going := notEnd _ _ found (by decide) (by decide)
      refine ⟨by simp [headerPosition, found, position],
        fun parser => parser.push (.addFile path "") .addFile, ?_, ?_, ?_⟩
      · intro parser
        simp only [handleHunkHeadersAndEndPatch, going, if_false, found]
        cases ensureUpdateHunkIsNotEmpty parser (trim line) <;> rfl
      · intro parser same
        exact ⟨trivial, rfl, by simp [push, LineState.hunks, same]⟩
      · intro parser counted other
        refine ⟨trivial, rfl, ?_, parser.hunks, rfl, other⟩
        simp [push, LineState.hunks, counted]
    next noAdd =>
      split at opened
      next path found =>
        obtain rfl := Option.some.inj opened
        have going := notEnd _ _ found (by decide) (by decide)
        have lastDeleted : Sound (.closed (hunks ++ [.deleteFile path])) := by
          intro last ending
          rw [getLast?_concat] at ending
          exact ⟨path, (Option.some.inj ending).symm⟩
        refine ⟨by simp [headerPosition, noAdd, found, position],
          fun parser => parser.push (.deleteFile path) .deleteFile, ?_, ?_, ?_⟩
        · intro parser
          simp only [handleHunkHeadersAndEndPatch, going, if_false, noAdd, found]
          cases ensureUpdateHunkIsNotEmpty parser (trim line) <;> rfl
        · intro parser same
          exact ⟨lastDeleted, Or.inr rfl, by simp [push, LineState.hunks, same]⟩
        · intro parser counted other
          refine ⟨lastDeleted, Or.inr rfl, ?_, ?_⟩
          · simp [push, LineState.hunks, counted]
          · intro same
            exact other (append_inj_left' same rfl)
      next noDelete =>
        obtain ⟨path, found, rfl⟩ := map_eq_some_iff.mp opened
        have going := notEnd _ _ found (by decide) (by decide)
        have fresh : SoundBody none [] .start := ⟨by simp, fun _ => ⟨rfl, rfl⟩⟩
        refine ⟨by simp [headerPosition, noAdd, noDelete, found, position, placePosition],
          fun parser => parser.push (.updateFile path none []) (.updateFile parser.lineNumber),
          ?_, ?_, ?_⟩
        · intro parser
          simp only [handleHunkHeadersAndEndPatch, going, if_false, noAdd, noDelete, found]
          cases ensureUpdateHunkIsNotEmpty parser (trim line) <;> rfl
        · intro parser same
          exact ⟨fresh, ⟨_, rfl⟩, by simp [push, LineState.hunks, same, Place.chunks]⟩
        · intro parser counted other
          refine ⟨fresh, ⟨_, rfl⟩, ?_, parser.hunks, (none, []), rfl, Or.inl other⟩
          simp [push, LineState.hunks, counted]

/-- With the hunks of a sound state, only an open update hunk can be empty. -/
theorem ensure_of_aligned (aligned : Aligned state parser)
    (complete : state.Complete) (line : String) :
    ensureUpdateHunkIsNotEmpty parser line = .ok () := by
  have sound := aligned.sound
  rw [ensureUpdateHunkIsNotEmpty, aligned.same]
  cases state with
  | closed hunks =>
    simp only [LineState.hunks]
    cases ending : hunks.getLast? with
    | none => rfl
    | some last =>
      obtain ⟨path, rfl⟩ := sound last ending
      rfl
  | adding hunks path contents => simp [LineState.hunks]
  | updating hunks path movePath chunks place =>
    have someChunk : chunks ++ place.chunks ≠ [] := by
      cases place with
      | within chunk => simp [Place.chunks]
      | start | between =>
        simp only [Place.chunks, append_nil]
        exact complete
    have filled : ∀ chunk ∈ chunks ++ place.chunks, hasLines chunk := by
      intro chunk mem
      rcases mem_append.mp mem with old | last
      · exact sound.filled chunk old
      · cases place with
        | within other =>
          obtain rfl := mem_singleton.mp last
          exact complete
        | start | between => cases last
    have opened : (chunks ++ place.chunks).isEmpty = false := by
      rw [isEmpty_eq_false_iff]
      exact someChunk
    simp only [LineState.hunks, getLast?_concat, opened, lastChunkEmpty_eq_false _ filled]
    rfl

/-! ## Lines -/

/-- If the line is a header, the parser opens the hunk of the header. -/
def ReadsHeader : Prop := ∀ advance : StreamingPatchParser → StreamingPatchParser,
  handleHunkHeadersAndEndPatch parser (trim line) =
    (ensureUpdateHunkIsNotEmpty parser (trim line)).map (fun _ => some (advance parser)) →
  processLine parser line = (ensureUpdateHunkIsNotEmpty parser (trim line)).map
      fun _ => advance parser

theorem readsHeader
    (mode : parser.mode = .startedPatch ∨ parser.mode = .addFile ∨ parser.mode = .deleteFile)
    (ordinary : startsWith line environmentIdMarker = false) : ReadsHeader parser line := by
  intro advance handled
  rcases mode with started | adding | deleting
  · simp only [processLine, started, ordinary, Bool.false_eq_true, if_false, handled]
    cases ensureUpdateHunkIsNotEmpty parser (trim line) <;> rfl
  · simp only [processLine, adding, handled]
    cases ensureUpdateHunkIsNotEmpty parser (trim line) <;> rfl
  · simp only [processLine, deleting, handled]
    cases ensureUpdateHunkIsNotEmpty parser (trim line) <;> rfl

theorem readsHeader_of_update {lineNumber : Nat} (mode : parser.mode = .updateFile lineNumber)
    (star : startsWith line "*" = true) : ReadsHeader parser line := by
  intro advance handled
  obtain ⟨tail, shape⟩ : ∃ tail, line.toList = '*' :: tail := by
    have first := head?_of_star line star
    cases chars : line.toList with
    | nil => rw [chars] at first; cases first
    | cons char tail =>
      rw [chars] at first
      exact ⟨tail, by rw [Option.some.inj first]⟩
  have trimmed := trim_eq_trimEnd line '*' tail shape (by decide)
  simp only [processLine, mode, ← trimmed, handled]
  cases ensureUpdateHunkIsNotEmpty parser (trim line) <;> rfl

theorem processLine_of_opensNothing (lineNumber : Nat)
    (mode : parser.mode = .updateFile lineNumber) (front : List Hunk)
    (path : String) (streamed : Option String × List UpdateFileChunk)
    (shape : parser.hunks = front ++ [.updateFile path streamed.1 streamed.2])
    (nothing : OpensNothing (trimEnd line)) :
    processLine parser line = (updateLine streamed.1 streamed.2 line parser.lineNumber).map
        fun result => { parser with
          hunks := front ++ [.updateFile path result.1 result.2] } := by
  simp only [processLine, mode, handleHunkHeadersAndEndPatch_of_opensNothing parser nothing, shape,
    getLast?_concat, dropLast_concat, bind, Except.bind]
  cases updateLine streamed.1 streamed.2 line parser.lineNumber <;> rfl

theorem processLine_plus {tail : List Char} (plus : line.toList = '+' :: tail)
    (mode : parser.mode = .addFile) {front : List Hunk} {path contents : String}
    (shape : parser.hunks = front ++ [.addFile path contents]) :
    processLine parser line = .ok { parser with
        hunks := front ++ [.addFile path (contents ++ String.ofList tail ++ "\n")] } := by
  have nothing := opensNothing_of_head (opensNothing_of_plus line plus)
  simp only [processLine, mode, handleHunkHeadersAndEndPatch_of_opensNothing parser nothing, plus,
    shape, getLast?_concat, dropLast_concat, bind, Except.bind]
  rfl

/-- What a step does: it takes the line into the hunk at work or reads it as a header. -/
inductive Steps (line : String) : LineState → LineState → Prop where
  | plus (hunks : List Hunk) (path contents : String) (tail : List Char)
      (plus : line.toList = '+' :: tail) : Steps line (.adding hunks path contents)
        (.adding hunks path (contents ++ String.ofList tail ++ "\n"))
  | body (hunks : List Hunk) (path : String) {movePath nextMove : Option String}
      {chunks nextChunks : List UpdateFileChunk} {place nextPlace : Place}
      (stays : bodyLine movePath chunks place line = .stays nextMove nextChunks nextPlace) :
      Steps line (.updating hunks path movePath chunks place)
        (.updating hunks path nextMove nextChunks nextPlace)
  | header {state next : LineState} (opened : header state.hunks line = some next)
      (complete : state.Complete)
      (reads : ∀ parser, ModeFits state parser → ReadsHeader parser line)
      (safe : harmless (position state) line = true)
      (moved : nextPosition (position state) line = headerPosition line) : Steps line state next

theorem steps_of_step (sound : Sound state) (stepped : state.step line = some next) :
    Steps line state next := by
  cases state with
  | closed hunks =>
    have ordinary := (header_step hunks line next stepped).1
    refine .header stepped trivial (fun parser fits => readsHeader parser line ?_ ordinary) rfl rfl
    rcases fits with ⟨started, -, -⟩ | deleting
    · exact Or.inl started
    · exact Or.inr (Or.inr deleting)
  | adding hunks path contents =>
    simp only [step] at stepped
    split at stepped
    next tail plus =>
      obtain rfl := Option.some.inj stepped
      exact .plus hunks path contents tail plus
    next =>
      have ordinary := (header_step _ line next stepped).1
      exact .header stepped trivial (fun parser fits =>
        readsHeader parser line (Or.inr (Or.inl fits)) ordinary) rfl rfl
  | updating hunks path movePath chunks place =>
    simp only [step] at stepped
    split at stepped
    next stays =>
      obtain rfl := Option.some.inj stepped
      exact .body hunks path stays
    next closed leaves =>
      obtain ⟨rfl, complete, star, safe, moved⟩ := bodyLine_leaves hunks movePath path sound leaves
      refine .header stepped complete (fun parser fits => ?_) safe moved
      obtain ⟨lineNumber, mode⟩ := fits
      exact readsHeader_of_update parser line mode star
    next => cases stepped

theorem aligned_step (parser : StreamingPatchParser) (line : String)
    (aligned : Aligned state parser) (stepped : state.step line = some next) :
    (harmless (position state) line = true →
      ∃ following, processLine parser line = .ok following ∧ Aligned next following) ∧
      (harmless (position state) line = false →
        ∀ following, processLine parser line = .ok following → Forked next following) := by
  have sound := aligned.sound
  cases steps_of_step state next line sound stepped with
  | plus hunks path contents tail plus =>
    refine ⟨fun _ => ?_, fun harmful => by cases harmful⟩
    exact ⟨_, processLine_plus parser line plus aligned.fits aligned.same,
      trivial, aligned.fits, rfl⟩
  | @body hunks path movePath nextMove chunks nextChunks place nextPlace stays =>
    obtain ⟨lineNumber, mode⟩ := aligned.fits
    obtain ⟨effect, nextSound, started, -⟩ := effect_of_stays sound stays
    have fresh : place = .start → chunks ++ place.chunks = [] ∧ movePath = none := by
      rintro rfl
      obtain ⟨rfl, rfl⟩ := SoundBody.fresh sound rfl
      exact ⟨rfl, rfl⟩
    have processed := processLine_of_opensNothing parser line lineNumber
      mode hunks path (movePath, chunks ++ place.chunks) aligned.same
      effect.opensNothing
    refine ⟨fun safe => ?_, fun harmful following read => ?_⟩
    · rw [processed, effect.updateLine_eq fresh safe]
      exact ⟨_, rfl, nextSound, ⟨lineNumber, mode⟩, rfl⟩
    · rw [processed] at read
      obtain ⟨result, body, rfl⟩ := map_eq_ok read
      refine ⟨nextSound, ⟨lineNumber, mode⟩, by
        simp [LineState.hunks], hunks, result, rfl,
        Or.inr ⟨started, ?_⟩⟩
      exact effect.apart_of_harmful fresh harmful body
  | header opened complete reads safe =>
    refine ⟨fun _ => ?_, fun harmful => absurd safe (Bool.eq_false_iff.mp harmful)⟩
    obtain ⟨-, -, advance, handled, aligns, -⟩ := header_step state.hunks line next opened
    refine ⟨advance parser, ?_, aligns parser aligned.same⟩
    rw [reads parser aligned.fits advance (handled parser),
      ensure_of_aligned _ parser aligned complete]
    rfl

theorem forked_step (parser following : StreamingPatchParser) (line : String)
    (forked : Forked state parser) (stepped : state.step line = some next)
    (read : processLine parser line = .ok following) : Forked next following := by
  have counted := forked.counted
  have sound := forked.sound
  cases steps_of_step state next line sound stepped with
  | plus hunks path contents tail plus =>
    obtain ⟨front, shape, elsewhere⟩ := forked.differs
    rw [processLine_plus parser line plus forked.fits shape] at read
    obtain rfl := Except.ok.inj read
    refine ⟨trivial, forked.fits, ?_, front, rfl, elsewhere⟩
    rw [shape] at counted
    simpa [LineState.hunks] using counted
  | body hunks path stays =>
    obtain ⟨lineNumber, mode⟩ := forked.fits
    obtain ⟨effect, nextSound, started, -⟩ := effect_of_stays sound stays
    obtain ⟨front, streamed, shape, differs⟩ := forked.differs
    rw [processLine_of_opensNothing parser line lineNumber mode front
      path streamed shape effect.opensNothing] at read
    obtain ⟨result, body, rfl⟩ := map_eq_ok read
    rw [shape] at counted
    refine ⟨nextSound, ⟨lineNumber, mode⟩, by
      simpa [LineState.hunks] using counted, front, result, rfl, ?_⟩
    rcases differs with elsewhere | ⟨inside, apart⟩
    · exact Or.inl elsewhere
    · exact Or.inr ⟨started, effect.apart_step inside apart body⟩
  | header opened complete reads =>
    obtain ⟨-, -, advance, handled, -, forks⟩ := header_step state.hunks line next opened
    rw [reads parser forked.fits advance (handled parser)] at read
    obtain ⟨-, -, rfl⟩ := map_eq_ok read
    exact forks parser counted forked.ne

theorem position_step (sound : Sound state) (stepped : state.step line = some next) :
    position next = nextPosition (position state) line := by
  cases steps_of_step state next line sound stepped with
  | plus hunks path contents tail plus =>
    exact (headerPosition_of_head line (opensNothing_of_plus line plus)).symm
  | body hunks path stays => exact (effect_of_stays sound stays).2.2.2
  | header opened complete reads safe moved => rw [(header_step _ line next opened).2.1, moved]

end Codex.ApplyPatch.LineSimulation
