import Codex.ApplyPatch.Patch

/-!
# The streaming patch parser

`apply-patch/src/streaming_parser.rs` reads a patch while it arrives.  It keeps
the characters of the current line, and on each line feed takes one step of a
state machine that extends the last hunk or opens another.
-/

namespace Codex.ApplyPatch.Streaming

open Rust.Text Rust.Lines Patch

inductive StreamingParserMode where
  | notStarted
  | startedPatch
  | addFile
  | deleteFile
  | updateFile (hunkLineNumber : Nat)
  | endedPatch
deriving DecidableEq

/-- `StreamingPatchParser`, with its state's two fields. -/
structure StreamingPatchParser where
  lineBuffer : List Char
  mode : StreamingParserMode
  hunks : List Hunk
  lineNumber : Nat
deriving DecidableEq

def initial : StreamingPatchParser := ⟨[], .notStarted, [], 0⟩

/-- Whether no line has been entered into a chunk. -/
def chunkIsEmpty (chunk : UpdateFileChunk) : Bool :=
  chunk.oldLines.isEmpty && chunk.newLines.isEmpty

def lastChunkEmpty (chunks : List UpdateFileChunk) : Bool := chunks.getLast?.any chunkIsEmpty

variable (parser : StreamingPatchParser)

def ensureUpdateHunkIsNotEmpty (line : String) : Except ParseError Unit :=
  match parser.hunks.getLast? with
  | some (.updateFile path _ chunks) =>
    match chunks.isEmpty, parser.mode with
    | true, .updateFile hunkLineNumber =>
      .error (.invalidHunkError (emptyHunkMessage path) hunkLineNumber)
    | _, _ =>
      if lastChunkEmpty chunks then
        if line = endPatchMarker then .error (.invalidHunkError noLinesMessage parser.lineNumber)
        else .error (.invalidHunkError (unexpectedLineMessage line) parser.lineNumber)
      else .ok ()
  | _ => .ok ()

def StreamingPatchParser.push (hunk : Hunk) (mode : StreamingParserMode) : StreamingPatchParser :=
  { parser with hunks := parser.hunks ++ [hunk], mode := mode }

/--
`handle_hunk_headers_and_end_patch`; `none` says that the line is neither a
header nor the end of the patch.
-/
def handleHunkHeadersAndEndPatch (trimmed : String) :
    Except ParseError (Option StreamingPatchParser) :=
  if trimmed = endPatchMarker then do
    ensureUpdateHunkIsNotEmpty parser trimmed
    return some { parser with mode := .endedPatch }
  else
    match stripPrefix? trimmed addFileMarker with
    | some path => do
        ensureUpdateHunkIsNotEmpty parser trimmed
        return some (parser.push (.addFile path "") .addFile)
    | none =>
      match stripPrefix? trimmed deleteFileMarker with
      | some path => do
          ensureUpdateHunkIsNotEmpty parser trimmed
          return some (parser.push (.deleteFile path) .deleteFile)
      | none =>
        match stripPrefix? trimmed updateFileMarker with
        | some path => do
            ensureUpdateHunkIsNotEmpty parser trimmed
            return some (parser.push (.updateFile path none []) (.updateFile parser.lineNumber))
        | none => return none

def invalidHeader (trimmed : String) : ParseError :=
  .invalidHunkError (invalidHeaderMessage trimmed) parser.lineNumber

variable (chunks : List UpdateFileChunk)

/-- Enter a line into the last chunk, opening one if there is none. -/
def enterLine (edit : UpdateFileChunk → UpdateFileChunk) : List UpdateFileChunk :=
  (if chunks.isEmpty then [emptyChunk none] else chunks).modifyLast edit

def markEndOfFile : List UpdateFileChunk :=
  chunks.modifyLast fun chunk => { chunk with isEndOfFile := true }

/-- The move and the chunks of an update hunk after one line of its body. -/
def updateLine (movePath : Option String) (chunks : List UpdateFileChunk)
    (line : String) (lineNumber : Nat) : Except ParseError (Option String × List UpdateFileChunk) :=
  let trimmed := trimEnd line
  let unexpected : ParseError := .invalidHunkError (unexpectedLineMessage line) lineNumber
  match if chunks.isEmpty && movePath.isNone then stripPrefix? trimmed moveToMarker else none with
  | some moveToPath => .ok (some moveToPath, chunks)
  | none =>
    match openingContext trimmed with
    | some changeContext =>
      if lastChunkEmpty chunks then .error unexpected
      else .ok (movePath, chunks ++ [emptyChunk changeContext])
    | none =>
      if trimmed = eofMarker then
        if lastChunkEmpty chunks then .error (.invalidHunkError noLinesMessage lineNumber)
        else .ok (movePath, markEndOfFile chunks)
      else
        match contentEdit line with
        | some edit => .ok (movePath, enterLine chunks edit)
        | none =>
          if chunks.getLast?.any (! chunkIsEmpty ·) then
            .error (.invalidHunkError (expectedContextMessage line) lineNumber)
          else .error unexpected

def processLine (line : String) : Except ParseError StreamingPatchParser :=
  let trimmed := trim line
  match parser.mode with
  | .notStarted =>
    if trimmed = beginPatchMarker then .ok { parser with mode := .startedPatch }
    else .error (.invalidPatchError firstLineMessage)
  | .startedPatch =>
    if startsWith line environmentIdMarker then .ok parser
    else do
      match ← handleHunkHeadersAndEndPatch parser trimmed with
      | some next => return next
      | none => throw (invalidHeader parser trimmed)
  | .addFile => do
      match ← handleHunkHeadersAndEndPatch parser trimmed with
      | some next => return next
      | none =>
        match line.toList, parser.hunks.getLast? with
        | '+' :: tail, some (.addFile path contents) =>
          return { parser with
            hunks := parser.hunks.dropLast ++ [.addFile path
                (contents ++ String.ofList tail ++ "\n")] }
        | _, _ => throw (invalidHeader parser trimmed)
  | .deleteFile => do
      match ← handleHunkHeadersAndEndPatch parser trimmed with
      | some next => return next
      | none => throw (invalidHeader parser trimmed)
  | .updateFile _ => do
      match ← handleHunkHeadersAndEndPatch parser (trimEnd line) with
      | some next => return next
      | none =>
        match parser.hunks.getLast? with
        | some (.updateFile path movePath chunks) =>
          let (movePath, chunks) ←
            updateLine movePath chunks line parser.lineNumber
          return { parser with
            hunks := parser.hunks.dropLast ++ [.updateFile path movePath chunks] }
        | _ => throw (.invalidHunkError (unexpectedLineMessage line) parser.lineNumber)
  | .endedPatch => .ok parser

def pushCharacter (char : Char) : Except ParseError StreamingPatchParser :=
  if char = '\n' then
    processLine { parser with lineBuffer := [], lineNumber := parser.lineNumber + 1 }
      (String.ofList (stripCarriageReturn parser.lineBuffer))
  else .ok { parser with lineBuffer := parser.lineBuffer ++ [char] }

def pushDelta (delta : String) : Except ParseError StreamingPatchParser :=
  delta.toList.foldlM pushCharacter parser

/-- The parser with the unfinished line of the text read as a whole one. -/
def finishLine : Except ParseError StreamingPatchParser :=
  if parser.lineBuffer.isEmpty then .ok parser
  else
    let line := String.ofList parser.lineBuffer
    let parser := { parser with lineBuffer := [], lineNumber := parser.lineNumber + 1 }
    if trim line = endPatchMarker then do
      ensureUpdateHunkIsNotEmpty parser (trim line)
      return { parser with mode := .endedPatch }
    else processLine parser line

def finish : Except ParseError (List Hunk) := do
  let parser ← finishLine parser
  if parser.mode = .endedPatch then return parser.hunks
  else throw (.invalidPatchError lastLineMessage)

/-- Push the deltas one after another and finish, up to the first error. -/
def parseDeltas (deltas : List String) : Except ParseError (List Hunk) := do
  let parser ← deltas.foldlM pushDelta initial
  finish parser

end Codex.ApplyPatch.Streaming
