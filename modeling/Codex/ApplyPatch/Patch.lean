import Codex.Rust.Lines

/-!
# Patches and their batch parser

`apply-patch/src/parser.rs` reads a complete patch text.  It trims the text,
checks the first and the last line, and reads one hunk after another: each
function takes the lines from where it stands and says how many it has used.
-/

namespace Codex.ApplyPatch.Patch

open Rust.Text Rust.Lines

/-! ## Hunks -/

structure UpdateFileChunk where
  changeContext : Option String
  oldLines : List String
  newLines : List String
  isEndOfFile : Bool
deriving DecidableEq

inductive Hunk where
  | addFile (path contents : String)
  | deleteFile (path : String)
  | updateFile (path : String) (movePath : Option String) (chunks : List UpdateFileChunk)
deriving DecidableEq

inductive ParseError where
  | invalidPatchError (msg : String)
  | invalidHunkError (msg : String) (lineNumber : Nat)
deriving DecidableEq

/-- `ApplyPatchArgs`, as parsing fills it in. -/
structure ApplyPatchArgs where
  hunks : List Hunk
  patch : String
  workdir : Option String
  environmentId : Option String
deriving DecidableEq

/-! ## Markers and messages -/

def beginPatchMarker : String := "*** Begin Patch"
def environmentIdMarker : String := "*** Environment ID: "
def endPatchMarker : String := "*** End Patch"
def addFileMarker : String := "*** Add File: "
def deleteFileMarker : String := "*** Delete File: "
def updateFileMarker : String := "*** Update File: "
def moveToMarker : String := "*** Move to: "
def eofMarker : String := "*** End of File"
def changeContextMarker : String := "@@ "
def emptyChangeContextMarker : String := "@@"

def firstLineMessage : String := "The first line of the patch must be '*** Begin Patch'"

def lastLineMessage : String := "The last line of the patch must be '*** End Patch'"

def noLinesMessage : String := "Update hunk does not contain any lines"

def emptyHunkMessage (path : String) : String :=
  "Update file hunk for path '" ++ path ++ "' is empty"

variable (line : String)

def unexpectedLineMessage : String :=
  "Unexpected line found in update hunk: '" ++ line ++
    "'. Every line should start with ' ' (context line), '+' (added line), " ++
    "or '-' (removed line)"

def expectedContextMessage : String :=
  "Expected update hunk to start with a @@ context marker, got: '" ++ line ++ "'"

def invalidHeaderMessage : String := "'" ++ line ++
    "' is not a valid hunk header. Valid hunk headers: '*** Add File: " ++
    "\x7bpath\x7d', '*** Delete File: \x7bpath\x7d', '*** Update File: " ++
    "\x7bpath\x7d'"

/-! ## Boundaries -/

def checkStartAndEndLinesStrict (firstLine lastLine : Option String) : Except ParseError Unit :=
  match firstLine.map trim, lastLine.map trim with
  | some first, some last =>
    if first = beginPatchMarker ∧ last = endPatchMarker then .ok ()
    else if first ≠ beginPatchMarker then .error (.invalidPatchError firstLineMessage)
    else .error (.invalidPatchError lastLineMessage)
  | some first, none =>
    if first ≠ beginPatchMarker then .error (.invalidPatchError firstLineMessage)
    else .error (.invalidPatchError lastLineMessage)
  | none, _ => .error (.invalidPatchError lastLineMessage)

/-- `check_patch_boundaries_strict`: all lines, and those of the hunks. -/
def checkPatchBoundariesStrict (lines : List String) :
    Except ParseError (List String × List String) := do
  checkStartAndEndLinesStrict lines.head? lines.getLast?
  return (lines, lines.tail.dropLast)

def checkPatchBoundariesLenient (originalLines : List String) :
    Except ParseError (List String × List String) :=
  match checkPatchBoundariesStrict originalLines with
  | .ok lines => .ok lines
  | .error originalParseError =>
    match originalLines.head?, originalLines.getLast? with
    | some first, some last =>
      if (first = "<<EOF" ∨ first = "<<'EOF'" ∨ first = "<<\"EOF\"") ∧
          endsWith last "EOF" = true ∧ 4 ≤ originalLines.length then
        checkPatchBoundariesStrict originalLines.tail.dropLast
      else .error originalParseError
    | _, _ => .error originalParseError

/--
`parse_environment_id_preamble`: the environment, the lines after it and the
number of the first of them.
-/
def parseEnvironmentIdPreamble (hunkLines : List String) :
    Except ParseError (Option String × List String × Nat) :=
  match hunkLines with
  | [] => .ok (none, hunkLines, 2)
  | firstLine :: rest =>
    match stripPrefix? (trimStart firstLine) environmentIdMarker with
    | none => .ok (none, hunkLines, 2)
    | some environmentId =>
      if isBlank environmentId then
        .error (.invalidPatchError "apply_patch environment_id cannot be empty")
      else .ok (some (trim environmentId), rest, 3)

/-! ## Update chunks -/

variable (chunk : UpdateFileChunk)

def UpdateFileChunk.keep (line : String) : UpdateFileChunk :=
  { chunk with
    oldLines := chunk.oldLines ++ [line]
    newLines := chunk.newLines ++ [line] }

def UpdateFileChunk.add (line : String) : UpdateFileChunk :=
  { chunk with newLines := chunk.newLines ++ [line] }

def UpdateFileChunk.remove (line : String) : UpdateFileChunk :=
  { chunk with oldLines := chunk.oldLines ++ [line] }

/-- What a line of a chunk does to it, by its first character. -/
def contentEdit : Option (UpdateFileChunk → UpdateFileChunk) :=
  match line.toList with
  | [] => some (·.keep "")
  | ' ' :: tail => some (·.keep (String.ofList tail))
  | '+' :: tail => some (·.add (String.ofList tail))
  | '-' :: tail => some (·.remove (String.ofList tail))
  | _ => none

def emptyChunk (changeContext : Option String) : UpdateFileChunk := ⟨changeContext, [], [], false⟩

/-- The loop of `parse_update_file_chunk` over the lines of the chunk. -/
def chunkLines (lineNumber : Nat) : UpdateFileChunk → Nat → List String →
      Except ParseError (UpdateFileChunk × Nat)
  | chunk, parsedLines, [] => .ok (chunk, parsedLines)
  | chunk, parsedLines, line :: rest =>
    if line = eofMarker then
      if parsedLines = 0 then .error (.invalidHunkError noLinesMessage (lineNumber + 1))
      else .ok ({ chunk with isEndOfFile := true }, parsedLines + 1)
    else
      match contentEdit line with
      | some edit => chunkLines lineNumber (edit chunk) (parsedLines + 1) rest
      | none =>
        if parsedLines = 0 then
          .error (.invalidHunkError (unexpectedLineMessage line) (lineNumber + 1))
        else .ok (chunk, parsedLines)

/-- The context that a line opens a chunk with, which may be none. -/
def openingContext : Option (Option String) :=
  if line = emptyChangeContextMarker then some none
  else (stripPrefix? line changeContextMarker).map some

/-- The context of a chunk, and how many lines it takes. -/
def chunkContext (lineNumber : Nat) (allowMissingContext : Bool)
    (line : String) : Except ParseError (Option String × Nat) :=
  match openingContext line with
  | some context => .ok (context, 1)
  | none =>
    if allowMissingContext then .ok (none, 0)
    else .error (.invalidHunkError (expectedContextMessage line) lineNumber)

def parseUpdateFileChunk (lines : List String) (lineNumber : Nat) (allowMissingContext : Bool) :
    Except ParseError (UpdateFileChunk × Nat) :=
  match lines with
  | [] => .error (.invalidHunkError noLinesMessage lineNumber)
  | line :: _ => do
      let (changeContext, startIndex) ←
        chunkContext lineNumber allowMissingContext line
      if lines.length ≤ startIndex then throw (.invalidHunkError noLinesMessage (lineNumber + 1))
      let (chunk, parsedLines) ←
        chunkLines lineNumber (emptyChunk changeContext) 0 (lines.drop startIndex)
      return (chunk, parsedLines + startIndex)

/-! ## Hunks of a patch -/

/-- The `+` lines at the front, as contents, and their number. -/
def addLines : List String → String × Nat
  | [] => ("", 0)
  | line :: rest =>
    match line.toList with
    | '+' :: tail =>
      let (contents, parsedLines) := addLines rest
      (String.ofList tail ++ "\n" ++ contents, parsedLines + 1)
    | _ => ("", 0)

/--
The loop over the chunks of an update hunk.  Every round uses a line, so that
as many rounds as there are lines reach the end of the loop.
-/
def updateChunks (lineNumber : Nat) : Nat → List UpdateFileChunk → Nat → List String →
      Except ParseError (List UpdateFileChunk × Nat)
  | 0, chunks, parsedLines, _ => .ok (chunks, parsedLines)
  | _, chunks, parsedLines, [] => .ok (chunks, parsedLines)
  | rounds + 1, chunks, parsedLines, line :: rest =>
    if isBlank line then updateChunks lineNumber rounds chunks (parsedLines + 1) rest
    else if startsWith line "*" then .ok (chunks, parsedLines)
    else do
      let (chunk, used) ← parseUpdateFileChunk (line :: rest)
        (lineNumber + parsedLines) chunks.isEmpty
      updateChunks lineNumber rounds (chunks ++ [chunk])
        (parsedLines + used) ((line :: rest).drop used)

/-- The body of an update hunk: the move, the chunks and the lines used. -/
def updateBody (path : String) (lineNumber : Nat) (lines : List String) :
    Except ParseError (Hunk × Nat) := do
  let movePath := lines.head?.bind (stripPrefix? · moveToMarker)
  let skipped := if movePath.isSome then 1 else 0
  let (chunks, parsedLines) ← updateChunks lineNumber lines.length []
    (1 + skipped) (lines.drop skipped)
  if chunks.isEmpty then throw (.invalidHunkError (emptyHunkMessage path) lineNumber)
  return (.updateFile path movePath chunks, parsedLines)

def parseOneHunk (rest : List String) (lineNumber : Nat) : Except ParseError (Hunk × Nat) :=
  let firstLine := trim line
  match stripPrefix? firstLine addFileMarker with
  | some path =>
    let (contents, parsedLines) := addLines rest
    .ok (.addFile path contents, 1 + parsedLines)
  | none =>
    match stripPrefix? firstLine deleteFileMarker with
    | some path => .ok (.deleteFile path, 1)
    | none =>
      match stripPrefix? firstLine updateFileMarker with
      | some path => updateBody path lineNumber rest
      | none => .error (.invalidHunkError (invalidHeaderMessage firstLine) lineNumber)

/-- The loop over the hunks; as for chunks, every round uses a line. -/
def parseHunks : Nat → List Hunk → Nat → List String → Except ParseError (List Hunk)
  | 0, hunks, _, _ => .ok hunks
  | _, hunks, _, [] => .ok hunks
  | rounds + 1, hunks, lineNumber, line :: rest => do
      let (hunk, hunkLines) ← parseOneHunk line rest lineNumber
      parseHunks rounds (hunks ++ [hunk]) (lineNumber + hunkLines) ((line :: rest).drop hunkLines)

/-- `parse_patch`, in the lenient mode in which it runs. -/
def parsePatch (patch : String) : Except ParseError ApplyPatchArgs := do
  let (patchLines, hunkLines) ←
    checkPatchBoundariesLenient (lines (trim patch))
  let (environmentId, remainingLines, lineNumber) ←
    parseEnvironmentIdPreamble hunkLines
  let hunks ← parseHunks remainingLines.length [] lineNumber remainingLines
  return ⟨hunks, "\n".intercalate patchLines, none, environmentId⟩

end Codex.ApplyPatch.Patch
