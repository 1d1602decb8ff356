import Codex.ApplyPatch.LineMachine
import Codex.ApplyPatch.Streaming
import Codex.Rust.Trimming
import Mathlib.Algebra.GroupWithZero.Nat
import Mathlib.Data.List.ModifyLast

/-!
# One line of an update hunk, read by both parsers

The batch parser reads a line of an update hunk as it stands.  The streaming
parser first trims it at its end, and has no notion of a line between chunks:
a blank line there is entered into the last chunk.
-/

namespace Codex.ApplyPatch.UpdateLines

open Rust.Text Rust.Lines Rust.Trimming Patch LineMachine Streaming List

/-! ## Which lines are harmless -/

/-- Where a line stands in a patch. -/
inductive Position where
  | outside
  | updateStart
  | beforeChunk
  | inChunk
deriving DecidableEq

/-- Whether a line between chunks is read alike: no blank, no loose context. -/
def harmlessBetween (line : String) : Bool :=
  !isBlank line && (!startsWith line "@@" || trimEnd line == line)

/-- Whether a line at a position is read alike. -/
def harmless (position : Position) (line : String) : Bool :=
  match position with
  | .outside => true
  | .updateStart =>
    if startsWith line moveToMarker then trimEnd line == line
    else harmlessBetween line
  | .beforeChunk => harmlessBetween line
  | .inChunk => line == eofMarker || (contentEdit line).isSome || harmlessBetween line

def placePosition : Place → Position
  | .start => .updateStart
  | .between => .beforeChunk
  | .within _ => .inChunk

/-! ## Lines that only the last branches of the streaming parser see -/

/-- A trimmed line that neither opens a hunk nor ends the patch. -/
structure OpensNothing (trimmed : String) : Prop where
  notEnd : trimmed ≠ endPatchMarker
  noAdd : stripPrefix? trimmed addFileMarker = none
  noDelete : stripPrefix? trimmed deleteFileMarker = none
  noUpdate : stripPrefix? trimmed updateFileMarker = none

/-- A trimmed line that is no marker of any kind. -/
structure Inert (trimmed : String) : Prop where
  notEnd : trimmed ≠ endPatchMarker
  noAdd : stripPrefix? trimmed addFileMarker = none
  noDelete : stripPrefix? trimmed deleteFileMarker = none
  noUpdate : stripPrefix? trimmed updateFileMarker = none
  noMove : stripPrefix? trimmed moveToMarker = none
  noContext : openingContext trimmed = none
  notEof : trimmed ≠ eofMarker

variable {trimmed : String}

theorem opensNothing_of_head (noStar : trimmed.toList.head? ≠ some '*') : OpensNothing trimmed where
  notEnd := by rintro rfl; exact noStar rfl
  noAdd := stripPrefix?_eq_none_of_head _ _ '*' rfl noStar
  noDelete := stripPrefix?_eq_none_of_head _ _ '*' rfl noStar
  noUpdate := stripPrefix?_eq_none_of_head _ _ '*' rfl noStar

theorem inert_of_head (noStar : trimmed.toList.head? ≠ some '*')
    (noAt : trimmed.toList.head? ≠ some '@') : Inert trimmed where
  __ := opensNothing_of_head noStar
  noMove := stripPrefix?_eq_none_of_head _ _ '*' rfl noStar
  noContext := by
    have notBare : trimmed ≠ emptyChangeContextMarker := by
      rintro rfl
      exact noAt rfl
    rw [openingContext, if_neg notBare, stripPrefix?_eq_none_of_head _ _ '@' rfl noAt]
    rfl
  notEof := by rintro rfl; exact noStar rfl

theorem Inert.opensNothing (inert : Inert trimmed) : OpensNothing trimmed :=
  ⟨inert.notEnd, inert.noAdd, inert.noDelete, inert.noUpdate⟩

theorem handleHunkHeadersAndEndPatch_of_opensNothing
    (parser : StreamingPatchParser) (nothing : OpensNothing trimmed) :
    handleHunkHeadersAndEndPatch parser trimmed = .ok none := by
  simp only [handleHunkHeadersAndEndPatch, nothing.notEnd, nothing.noAdd,
    nothing.noDelete, nothing.noUpdate, if_false]
  rfl

variable (movePath : Option String) (chunks : List UpdateFileChunk) (lineNumber : Nat)

theorem updateLine_of_inert {line : String} (inert : Inert (trimEnd line)) :
    updateLine movePath chunks line lineNumber = match contentEdit line with
      | some edit => .ok (movePath, enterLine chunks edit)
      | none =>
        if chunks.getLast?.any (! chunkIsEmpty ·) then
          .error (.invalidHunkError (expectedContextMessage line) lineNumber)
        else .error (.invalidHunkError (unexpectedLineMessage line) lineNumber) := by
  cases content : contentEdit line <;>
    simp only [updateLine, inert.noMove, ite_self, inert.noContext, inert.notEof, if_false, content]

variable {edit : UpdateFileChunk → UpdateFileChunk} {line : String}

/-! ## Content lines -/

theorem head?_of_contentEdit (content : contentEdit line = some edit) :
    line.toList.head? ≠ some '*' ∧ line.toList.head? ≠ some '@' := by
  unfold contentEdit at content
  split at content
  next shape => simp [shape]
  next shape => simp [shape]
  next shape => simp [shape]
  next shape => simp [shape]
  next => cases content

theorem inert_of_contentEdit (content : contentEdit line = some edit) : Inert (trimEnd line) := by
  obtain ⟨noStar, noAt⟩ := head?_of_contentEdit content
  exact inert_of_head (fun star => noStar (head?_trimEnd line '*' star))
    (fun sign => noAt (head?_trimEnd line '@' sign))

theorem updateLine_of_contentEdit (content : contentEdit line = some edit) :
    updateLine movePath chunks line lineNumber = .ok (movePath, enterLine chunks edit) := by
  rw [updateLine_of_inert _ _ _ (inert_of_contentEdit content), content]

/-- Lines and contexts of a chunk, counted. -/
def chunkSize (chunk : UpdateFileChunk) : Nat := 1 + chunk.oldLines.length + chunk.newLines.length

theorem contentEdit_spec (content : contentEdit line = some edit) :
    (∀ chunk, (edit chunk).changeContext = chunk.changeContext) ∧ ∃ added, 0 < added ∧
        ∀ chunk, chunkSize (edit chunk) = chunkSize chunk + added := by
  unfold contentEdit at content
  split at content <;> cases content
  · refine ⟨fun _ => rfl, 2, by decide, fun chunk => ?_⟩
    simp [chunkSize, UpdateFileChunk.keep]
    omega
  · refine ⟨fun _ => rfl, 2, by decide, fun chunk => ?_⟩
    simp [chunkSize, UpdateFileChunk.keep]
    omega
  · refine ⟨fun _ => rfl, 1, by decide, fun chunk => ?_⟩
    simp [chunkSize, UpdateFileChunk.add]
    omega
  · refine ⟨fun _ => rfl, 1, by decide, fun chunk => ?_⟩
    simp [chunkSize, UpdateFileChunk.remove]
    omega

@[simp] theorem enterLine_nil (edit : UpdateFileChunk → UpdateFileChunk) :
    enterLine [] edit = [edit (emptyChunk none)] :=
  rfl

@[simp] theorem enterLine_concat (chunks : List UpdateFileChunk)
    (chunk : UpdateFileChunk) (edit : UpdateFileChunk → UpdateFileChunk) :
    enterLine (chunks ++ [chunk]) edit = chunks ++ [edit chunk] := by
  simp [enterLine, modifyLast_concat]

@[simp] theorem markEndOfFile_concat (chunks : List UpdateFileChunk) (chunk : UpdateFileChunk) :
    markEndOfFile (chunks ++ [chunk]) = chunks ++ [{ chunk with isEndOfFile := true }] := by
  simp [markEndOfFile, modifyLast_concat]

variable {context : Option String}

/-! ## Context lines -/

theorem startsWith_of_openingContext (opens : openingContext line = some context) :
    startsWith line "@@" = true := by
  rw [openingContext] at opens
  split at opens
  next bare => rw [bare]; rfl
  next =>
    obtain ⟨text, stripped, -⟩ := Option.map_eq_some_iff.mp opens
    rw [stripPrefix?_eq_some _ _ _ stripped, startsWith,
      isPrefixOf_iff_prefix, String.toList_append]
    exact ⟨' ' :: text.toList, rfl⟩

theorem context_ne_bare (text : String) :
    changeContextMarker ++ text ≠ emptyChangeContextMarker := by
  intro same
  have chars := congrArg String.toList same
  simp [changeContextMarker, emptyChangeContextMarker] at chars

theorem openingContext_trimEnd (opens : openingContext line = some context) :
    ∃ other, openingContext (trimEnd line) = some other ∧
      (other = context ↔ trimEnd line = line) := by
  rw [openingContext] at opens
  split at opens
  next bare =>
    obtain rfl := Option.some.inj opens
    subst bare
    exact ⟨none, rfl, iff_of_true rfl rfl⟩
  next =>
    obtain ⟨text, stripped, rfl⟩ := Option.map_eq_some_iff.mp opens
    have whole := stripPrefix?_eq_some _ _ _ stripped
    have shape : line.toList = ['@', '@'] ++ (' ' :: text.toList) := by
      rw [whole]
      simp [changeContextMarker]
    have trimmed := toList_trimEnd_append line ['@', '@']
      (' ' :: text.toList) '@' shape rfl (by decide)
    obtain ⟨dropped, rest⟩ := rdropWhile_prefix isWhiteSpace (l := ' ' :: text.toList)
    cases kept : (' ' :: text.toList).rdropWhile isWhiteSpace with
    | nil =>
      rw [kept] at trimmed
      have bare : trimEnd line = emptyChangeContextMarker := String.toList_inj.mp trimmed
      refine ⟨none, by rw [bare]; rfl, iff_of_false (by simp) ?_⟩
      rw [bare, whole]
      exact (context_ne_bare text).symm
    | cons first tail =>
      rw [kept] at trimmed rest
      obtain ⟨rfl, back⟩ := List.cons.inj rest
      have loose : trimEnd line = changeContextMarker ++ String.ofList tail := by
        refine String.toList_inj.mp ?_
        rw [trimmed]
        simp [changeContextMarker]
      refine ⟨some (String.ofList tail), ?_, ?_⟩
      · rw [openingContext, loose, if_neg (context_ne_bare _), stripPrefix?_append]
        rfl
      · rw [loose, whole, String.append_right_inj, Option.some.injEq]

theorem head?_of_openingContext
    (opens : openingContext line = some context) : line.toList.head? = some '@' := by
  have sign := startsWith_of_openingContext opens
  rw [startsWith, isPrefixOf_iff_prefix] at sign
  obtain ⟨rest, whole⟩ := sign
  rw [← whole]
  rfl

theorem updateLine_of_openingContext {other : Option String}
    (opens : openingContext (trimEnd line) = some other) :
    OpensNothing (trimEnd line) ∧ updateLine movePath chunks line lineNumber =
        if lastChunkEmpty chunks then
          .error (.invalidHunkError (unexpectedLineMessage line) lineNumber)
        else .ok (movePath, chunks ++ [emptyChunk other]) := by
  have sign := head?_of_openingContext opens
  have noStar : (trimEnd line).toList.head? ≠ some '*' := by
    rw [sign]
    decide
  refine ⟨opensNothing_of_head noStar, ?_⟩
  simp only [updateLine, stripPrefix?_eq_none_of_head (trimEnd line) moveToMarker '*' rfl noStar,
    ite_self, opens]

/-! ## Move lines -/

theorem opensNothing_of_move {line path : String}
    (moves : stripPrefix? line moveToMarker = some path) :
    OpensNothing (trimEnd line) ∧ openingContext (trimEnd line) = none ∧
      trimEnd line ≠ eofMarker ∧ contentEdit line = none := by
  have whole := stripPrefix?_eq_some _ _ _ moves
  have shape : line.toList = "*** Move to:".toList ++ (' ' :: path.toList) := by
    rw [whole]
    simp [moveToMarker]
  have trimmed := toList_trimEnd_append line "*** Move to:".toList
    (' ' :: path.toList) ':' shape (by decide +kernel) (by decide)
  -- The letter after the stars decides between the markers.
  have fifth : (trimEnd line).toList[4]? = some 'M' := by
    rw [trimmed]
    rfl
  have differs : ∀ marker : String, marker.toList[4]? ≠ some 'M' → trimEnd line ≠ marker := by
    rintro marker different rfl
    exact different fifth
  have noSign : (trimEnd line).toList.head? ≠ some '@' := by
    rw [trimmed]
    show some '*' ≠ some '@'
    decide
  refine ⟨⟨differs _ (by decide),
    stripPrefix?_eq_none_of_getElem _ _ 4 'M' 'A' fifth rfl (by decide),
    stripPrefix?_eq_none_of_getElem _ _ 4 'M' 'D' fifth rfl (by decide),
    stripPrefix?_eq_none_of_getElem _ _ 4 'M' 'U' fifth rfl (by decide)⟩,
    ?_, differs _ (by decide), ?_⟩
  · have notBare := differs emptyChangeContextMarker (by decide)
    rw [openingContext, if_neg notBare, stripPrefix?_eq_none_of_head _ _ '@' rfl noSign]
    rfl
  · rw [contentEdit, shape]
    rfl

/-! ## What a line of the body does -/

/--
The ways in which a line stays in an update hunk, as a change of the move and
of the whole list of chunks, and whether the line is harmless there.
-/
inductive Effect (line : String) (place : Place) (movePath : Option String)
    (chunks : List UpdateFileChunk) :
    Bool → Option String → List UpdateFileChunk → Prop where
  | move (path : String) (atStart : place = .start)
      (moves : stripPrefix? line moveToMarker = some path) :
      Effect line place movePath chunks (trimEnd line == line) (some path) chunks
  | endOfFile (front : List UpdateFileChunk) (chunk : UpdateFileChunk)
      (ends : line = eofMarker) (last : chunks = front ++ [chunk])
      (filled : hasLines chunk) :
      Effect line place movePath chunks true movePath
        (front ++ [{ chunk with isEndOfFile := true }])
  | content (edit : UpdateFileChunk → UpdateFileChunk) (edits : contentEdit line = some edit) :
      Effect line place movePath chunks true movePath (enterLine chunks edit)
  | context (context : Option String) (opens : openingContext line = some context)
      (filled : ∀ chunk ∈ chunks, hasLines chunk) :
      Effect line place movePath chunks (trimEnd line == line) movePath
        (chunks ++ [emptyChunk context])
  | skip (blank : isBlank line = true) : Effect line place movePath chunks false movePath chunks

/-- Finished chunks have lines, and nothing comes before the start. -/
structure SoundBody (movePath : Option String)
    (chunks : List UpdateFileChunk) (place : Place) : Prop where
  filled : ∀ chunk ∈ chunks, hasLines chunk
  fresh : place = .start → chunks = [] ∧ movePath = none

/-! ## Harmless lines -/

theorem lastChunkEmpty_eq_false (filled : ∀ chunk ∈ chunks, hasLines chunk) :
    lastChunkEmpty chunks = false := by
  rcases eq_nil_or_concat chunks with rfl | ⟨front, last, rfl⟩
  · rfl
  · rcases filled last (by simp) with old | new
    · simp [lastChunkEmpty, chunkIsEmpty, old]
    · simp [lastChunkEmpty, chunkIsEmpty, new]

theorem updateLine_eofMarker : updateLine movePath chunks eofMarker lineNumber =
      if lastChunkEmpty chunks then .error (.invalidHunkError noLinesMessage lineNumber)
      else .ok (movePath, markEndOfFile chunks) := by
  have trimmed : trimEnd eofMarker = eofMarker := by decide +kernel
  have noMove : stripPrefix? eofMarker moveToMarker = none := by decide +kernel
  have noContext : openingContext eofMarker = none := by decide +kernel
  simp only [updateLine, trimmed, noMove, ite_self, noContext, if_true]

variable {place : Place} {kept : Bool}

section Staying

variable {movePath nextMove : Option String} {chunks nextChunks : List UpdateFileChunk}
  (effect : Effect line place movePath chunks kept nextMove nextChunks)
include effect

/-- A line that stays in the hunk is no header to the streaming parser. -/
theorem Effect.opensNothing : OpensNothing (trimEnd line) := by
  cases effect with
  | move path atStart moves => exact (opensNothing_of_move moves).1
  | endOfFile front chunk ends last filled =>
    subst ends
    have trimmed : trimEnd eofMarker = eofMarker := by decide +kernel
    rw [trimmed]
    exact ⟨by decide, by decide +kernel, by decide +kernel, by decide +kernel⟩
  | content edit edits => exact (inert_of_contentEdit edits).opensNothing
  | context context opens filled =>
    obtain ⟨other, trimmedOpens, -⟩ := openingContext_trimEnd opens
    exact (updateLine_of_openingContext none [] 0 trimmedOpens).1
  | skip blank =>
    rw [trimEnd_of_blank line blank]
    exact opensNothing_of_head (by simp)

theorem Effect.updateLine_eq (fresh : place = .start → chunks = [] ∧ movePath = none)
    (agrees : kept = true) (lineNumber : Nat) :
    updateLine movePath chunks line lineNumber = .ok (nextMove, nextChunks) := by
  cases effect with
  | move path atStart moves =>
    obtain ⟨rfl, rfl⟩ := fresh atStart
    have trimmed : trimEnd line = line := by simpa using agrees
    simp [updateLine, trimmed, moves]
  | endOfFile front chunk ends last filled =>
    subst ends last
    have ready : lastChunkEmpty (front ++ [chunk]) = false := by
      rcases filled with old | new
      · simp [lastChunkEmpty, chunkIsEmpty, old]
      · simp [lastChunkEmpty, chunkIsEmpty, new]
    rw [updateLine_eofMarker, ready, markEndOfFile_concat]
    rfl
  | content edit edits => exact updateLine_of_contentEdit _ _ _ edits
  | context context opens filled =>
    have trimmed : trimEnd line = line := by simpa using agrees
    rw [(updateLine_of_openingContext movePath chunks lineNumber (by rw [trimmed]; exact opens)).2,
      lastChunkEmpty_eq_false chunks filled]
    rfl
  | skip blank => cases agrees

end Staying

/-! ## Lines that leave a mark -/

def contexts (chunks : List UpdateFileChunk) : List (Option String) := chunks.map (·.changeContext)

/-- Chunks and their lines, counted. -/
def bodySize (chunks : List UpdateFileChunk) : Nat := (chunks.map chunkSize).sum

/--
A streamed body that will never be the parsed one: another move, another
context somewhere, or more in its chunks.  Before the first parsed chunk it
has to be ahead by two, since that chunk may open without a line of its own.
-/
def Apart (parsed streamed : Option String × List UpdateFileChunk) : Prop := streamed.1 ≠ parsed.1 ∨
    (∃ (index : Nat) (left right : Option String), (contexts parsed.2)[index]? = some left ∧
      (contexts streamed.2)[index]? = some right ∧ left ≠ right) ∨
    bodySize parsed.2 + (if parsed.2 = [] then 1 else 0) < bodySize streamed.2

theorem ne_of_apart {parsed streamed : Option String × List UpdateFileChunk}
    (apart : Apart parsed streamed) : streamed ≠ parsed := by
  rintro rfl
  rcases apart with moved | ⟨index, left, right, here, there, differ⟩ | more
  · exact moved rfl
  · exact differ (Option.some.inj (here.symm.trans there))
  · split at more
    · omega
    · omega

@[simp] theorem bodySize_concat (chunks : List UpdateFileChunk) (chunk : UpdateFileChunk) :
    bodySize (chunks ++ [chunk]) = bodySize chunks + chunkSize chunk := by
  simp [bodySize]

@[simp] theorem contexts_concat (chunks : List UpdateFileChunk) (chunk : UpdateFileChunk) :
    contexts (chunks ++ [chunk]) = contexts chunks ++ [chunk.changeContext] := by
  simp [contexts]

theorem bodySize_enterLine {added : Nat}
    (grows : ∀ chunk, chunkSize (edit chunk) = chunkSize chunk + added) :
    bodySize (enterLine chunks edit) = bodySize chunks + added + if chunks = [] then 1 else 0 := by
  rcases eq_nil_or_concat chunks with rfl | ⟨front, last, rfl⟩
  · have first := grows (emptyChunk none)
    have bare : chunkSize (emptyChunk none) = 1 := rfl
    simp [bodySize, first, bare]
    omega
  · simp [grows]
    omega

theorem contexts_enterLine (keeps : ∀ chunk, (edit chunk).changeContext = chunk.changeContext)
    {index : Nat} (here : (contexts chunks)[index]? = some context) :
    (contexts (enterLine chunks edit))[index]? = some context := by
  rcases eq_nil_or_concat chunks with rfl | ⟨front, last, rfl⟩
  · simp [contexts] at here
  · simpa [keeps] using here

theorem contexts_markEndOfFile : contexts (markEndOfFile chunks) = contexts chunks := by
  rcases eq_nil_or_concat chunks with rfl | ⟨front, last, rfl⟩
  · rfl
  · simp

theorem bodySize_markEndOfFile : bodySize (markEndOfFile chunks) = bodySize chunks := by
  rcases eq_nil_or_concat chunks with rfl | ⟨front, last, rfl⟩
  · rfl
  · simp [chunkSize]

variable {result : Option String × List UpdateFileChunk} {lineNumber : Nat}

theorem updateLine_of_blank (blank : isBlank line = true)
    (read : updateLine movePath chunks line lineNumber = .ok result) :
    ∃ edit, contentEdit line = some edit ∧ result = (movePath, enterLine chunks edit) := by
  have inert : Inert (trimEnd line) := by
    rw [trimEnd_of_blank line blank]
    exact inert_of_head (by simp) (by simp)
  rw [updateLine_of_inert _ _ _ inert] at read
  cases content : contentEdit line with
  | some edit =>
    rw [content] at read
    exact ⟨edit, rfl, (Except.ok.inj read).symm⟩
  | none =>
    rw [content] at read
    dsimp only at read
    split at read
    · cases read
    · cases read

section Apart

variable {movePath nextMove : Option String} {chunks nextChunks : List UpdateFileChunk}
  (effect : Effect line place movePath chunks kept nextMove nextChunks)
include effect

theorem Effect.apart_of_harmful (fresh : place = .start → chunks = [] ∧ movePath = none)
    (harmful : kept = false)
    (read : updateLine movePath chunks line lineNumber = .ok result) :
    Apart (nextMove, nextChunks) result := by
  cases effect with
  | move path atStart moves =>
    obtain ⟨rfl, rfl⟩ := fresh atStart
    have trimmed : trimEnd line ≠ line := by simpa using harmful
    obtain ⟨-, noContext, notEof, noContent⟩ := opensNothing_of_move moves
    cases stripped : stripPrefix? (trimEnd line) moveToMarker with
    | some other =>
      simp [updateLine, stripped] at read
      subst read
      refine Or.inl ?_
      simp only [ne_eq, Option.some.injEq]
      rintro rfl
      rw [stripPrefix?_eq_some _ _ _ moves] at trimmed
      rw [stripPrefix?_eq_some _ _ _ moves] at stripped
      exact trimmed (stripPrefix?_eq_some _ _ _ stripped)
    | none => simp [updateLine, stripped, noContext, notEof, noContent] at read
  | endOfFile | content => cases harmful
  | context context opens filled =>
    have trimmed : trimEnd line ≠ line := by simpa using harmful
    obtain ⟨other, trimmedOpens, same⟩ := openingContext_trimEnd opens
    rw [(updateLine_of_openingContext movePath chunks lineNumber trimmedOpens).2,
      lastChunkEmpty_eq_false chunks filled]
      at read
    obtain rfl := Except.ok.inj read
    refine Or.inr (Or.inl ⟨chunks.length, context, other, ?_, ?_, ?_⟩)
    · simp [contexts, emptyChunk]
    · simp [contexts, emptyChunk]
    · exact fun equal => trimmed (same.mp equal.symm)
  | skip blank =>
    obtain ⟨edit, edits, rfl⟩ := updateLine_of_blank movePath chunks blank read
    obtain ⟨-, added, positive, grows⟩ := contentEdit_spec edits
    refine Or.inr (Or.inr ?_)
    simp only
    rw [bodySize_enterLine chunks grows]
    split
    · omega
    · omega

theorem Effect.apart_step (started : place ≠ .start)
    {streamed : Option String × List UpdateFileChunk}
    (apart : Apart (movePath, chunks) streamed)
    (read : updateLine streamed.1 streamed.2 line lineNumber = .ok result) :
    Apart (nextMove, nextChunks) result := by
  obtain ⟨streamedMove, streamedChunks⟩ := streamed
  dsimp only at read
  cases effect with
  | move path atStart moves => exact absurd atStart started
  | endOfFile front chunk ends last filled =>
    subst ends last
    rw [updateLine_eofMarker] at read
    split at read
    next => cases read
    next =>
      obtain rfl := Except.ok.inj read
      have unmarked : contexts (front ++ [{ chunk with
          isEndOfFile := true }]) = contexts (front ++ [chunk]) := by simp
      have unsized : bodySize (front ++ [{ chunk with
          isEndOfFile := true }]) = bodySize (front ++ [chunk]) := by
        simp [chunkSize]
      simpa [Apart, contexts_markEndOfFile, bodySize_markEndOfFile, unmarked, unsized] using apart
  | content edit edits =>
    rw [updateLine_of_contentEdit _ _ _ edits] at read
    obtain rfl := Except.ok.inj read
    obtain ⟨keeps, added, positive, grows⟩ := contentEdit_spec edits
    rcases apart with moved | ⟨index, left, right, here, there, differ⟩ | more
    · exact Or.inl moved
    · exact Or.inr (Or.inl ⟨index, left, right, contexts_enterLine chunks keeps here,
        contexts_enterLine streamedChunks keeps there,
        differ⟩)
    · refine Or.inr (Or.inr ?_)
      have someChunk : enterLine chunks edit ≠ [] := by
        rcases eq_nil_or_concat chunks with rfl | ⟨front, last, rfl⟩
        · simp
        · simp
      simp only [someChunk, if_false] at more ⊢
      rw [bodySize_enterLine chunks grows, bodySize_enterLine streamedChunks grows]
      omega
  | context context opens filled =>
    obtain ⟨other, trimmedOpens, -⟩ := openingContext_trimEnd opens
    rw [(updateLine_of_openingContext streamedMove streamedChunks
      lineNumber trimmedOpens).2] at read
    split at read
    next => cases read
    next =>
      obtain rfl := Except.ok.inj read
      rcases apart with moved | ⟨index, left, right, here, there, differ⟩ | more
      · exact Or.inl moved
      · refine Or.inr (Or.inl ⟨index, left, right, ?_, ?_, differ⟩)
        · rw [contexts_concat, getElem?_append_left (List.getElem?_eq_some_iff.mp here).1]
          exact here
        · rw [contexts_concat, getElem?_append_left (List.getElem?_eq_some_iff.mp there).1]
          exact there
      · refine Or.inr (Or.inr ?_)
        have bare : ∀ context, chunkSize (emptyChunk context) = 1 := fun _ => rfl
        simp only [bodySize_concat, bare] at more ⊢
        simp
        omega
  | skip blank =>
    obtain ⟨edit, edits, rfl⟩ := updateLine_of_blank streamedMove
      streamedChunks blank read
    obtain ⟨keeps, added, positive, grows⟩ := contentEdit_spec edits
    rcases apart with moved | ⟨index, left, right, here, there, differ⟩ | more
    · exact Or.inl moved
    · exact Or.inr (Or.inl ⟨index, left, right, here, contexts_enterLine streamedChunks keeps there,
        differ⟩)
    · refine Or.inr (Or.inr ?_)
      simp only at more ⊢
      rw [bodySize_enterLine streamedChunks grows]
      omega

end Apart

end Codex.ApplyPatch.UpdateLines
