import Codex.Sandbox.Paths
import Codex.Turn.ToolCalls
import Mathlib.Algebra.GroupWithZero.Nat
import Mathlib.Data.List.DropRight

/-!
# Reading files

The model of `core/src/tools/handlers/read_file.rs`.  The handler opens the
file that the arguments name with the asynchronous file functions of the
runtime, splits it into lines and returns either a slice of them or the block
around an anchor line.
-/

namespace Codex.FileTools.ReadFile

open Rust.Text Sandbox.Paths Turn.ToolCalls

/-! ## Files -/

/-- What a path of a file system leads to. -/
inductive HostFile where
  /-- Nothing that can be looked at, and the error that says so. -/
  | absent (error : String)
  /--
  Something that is there.  Opening it may fail, and so may reading on after
  some bytes.
  -/
  | present (isFile : Bool) (openError : Option String) (bytes : List UInt8)
      (readError : Option String)
deriving DecidableEq

/-- Files by the path that is handed to the system, with its `..` components. -/
abbrev FileSystemState := Path → HostFile

/-- A file that is open: what can be read, and how reading ends. -/
structure OpenFile where
  bytes : List UInt8
  readError : Option String

def HostFile.openFile : HostFile → Except String OpenFile
  | .absent error => .error error
  | .present _ (some error) _ _ => .error error
  | .present _ none bytes readError => .ok ⟨bytes, readError⟩

/-! ## Lines -/

def lineFeed : UInt8 := 10

def carriageReturn : UInt8 := 13

/-- Drop the carriage return in front of a line feed. -/
def popCarriageReturn (buffer : List UInt8) : List UInt8 :=
  if buffer.getLast? = some carriageReturn then buffer.dropLast else buffer

/-- The buffers that `read_until` fills before it ends or fails. -/
def OpenFile.buffers (file : OpenFile) : List (List UInt8) :=
  let pieces := file.bytes.splitOn lineFeed
  let unterminated := pieces.getLastD []
  pieces.dropLast.map popCarriageReturn ++
    -- What was read of a line is lost if reading it fails.
    (if unterminated.isEmpty || file.readError.isSome then []
      else [unterminated])

/-- The longest run of characters within so many bytes. -/
def takeWithin : Nat → List Char → List Char
  | _, [] => []
  | budget, char :: rest =>
    if char.utf8Size ≤ budget then char :: takeWithin (budget - char.utf8Size) rest
    else []

def takeBytesAtCharBoundary (text : String) (maximum : Nat) : String :=
  if text.utf8ByteSize ≤ maximum then text
  else String.ofList (takeWithin maximum text.toList)

def maxLineLength : Nat := 500

def tabWidth : Nat := 4

def commentMarkers : List String := ["#", "//", "--"]

structure LineRecord where
  number : Nat
  raw : String
  display : String
  indent : Nat
deriving DecidableEq

def LineRecord.isBlank (record : LineRecord) : Bool := (trimStart record.raw).isEmpty

def LineRecord.isComment (record : LineRecord) : Bool :=
  commentMarkers.any fun marker => startsWith (trim record.raw) marker

/-- A line with its number, as both modes return it. -/
def numbered (number : Nat) (text : String) : String := "L" ++ toString number ++ ": " ++ text

def measureIndent (line : String) : Nat := ((line.toList.takeWhile fun char =>
    char == ' ' || char == '\t').map fun char => if char == '\t' then tabWidth else 1).sum

/-! ## Arguments -/

structure IndentationArgs where
  anchorLine : Option Nat := none
  maxLevels : Nat := 0
  includeSiblings : Bool := false
  includeHeader : Bool := true
  maxLines : Option Nat := none
deriving DecidableEq

inductive ReadMode where
  | slice
  | indentation
deriving DecidableEq

structure ReadFileArgs where
  filePath : String
  offset : Nat := 1
  limit : Nat := 2000
  mode : ReadMode := .slice
  indentation : Option IndentationArgs := none
deriving DecidableEq

/-- How the handler ends without an output. -/
inductive ReadFailure where
  | failed (error : FunctionCallError)
  | panicked
deriving DecidableEq

def ReadFailure.respondToModel (msg : String) : ReadFailure := .failed (.respondToModel msg)

def failedToRead (error : String) : ReadFailure :=
  .respondToModel ("failed to read file: " ++ error)

/-- `String::from_utf8_lossy` on ASCII bytes. -/
def fromAscii (bytes : List UInt8) : String :=
  String.ofList (bytes.map fun byte => Char.ofNat byte.toNat)

variable {args : ReadFileArgs} {before after : FileSystemState}

section Decoding

variable (fromUtf8Lossy : List UInt8 → String)

def formatLine (bytes : List UInt8) : String :=
  let decoded := fromUtf8Lossy bytes
  if decoded.utf8ByteSize > maxLineLength then takeBytesAtCharBoundary decoded maxLineLength
  else decoded

/-! ## Slices -/

def collectSlice (offset limit : Nat) (readError : Option String) :
    Nat → List String → List (List UInt8) → Except ReadFailure (Nat × List String)
  | seen, collected, [] =>
    match readError with
    | some error => .error (failedToRead error)
    | none => .ok (seen, collected)
  | seen, collected, buffer :: buffers =>
    if seen + 1 < offset then collectSlice offset limit readError (seen + 1) collected buffers
    else if collected.length = limit then .ok (seen + 1, collected)
    else
      let collected := collected ++ [numbered (seen + 1) (formatLine fromUtf8Lossy buffer)]
      if collected.length = limit then .ok (seen + 1, collected)
      else collectSlice offset limit readError (seen + 1) collected buffers

def readSlice (file : HostFile) (offset limit : Nat) : Except ReadFailure (List String) :=
  match file.openFile with
  | .error error => .error (failedToRead error)
  | .ok opened => do
    let (seen, collected) ←
      collectSlice fromUtf8Lossy offset limit opened.readError 0 [] opened.buffers
    if seen < offset then .error (.respondToModel "offset exceeds file length")
    else .ok collected

/-! ## Blocks -/

/-- `collect_file_lines`, of an open file. -/
def collectFileLines (file : HostFile) : Except ReadFailure (List LineRecord) :=
  match file.openFile with
  | .error error => .error (failedToRead error)
  | .ok opened =>
    match opened.readError with
    | some error => .error (failedToRead error)
    | none =>
      .ok (opened.buffers.mapIdx fun index buffer =>
        let raw := fromUtf8Lossy buffer
        ⟨index + 1, raw, formatLine fromUtf8Lossy buffer, measureIndent raw⟩)

/-- `compute_effective_indents`: a blank line has the indent before it. -/
def computeEffectiveIndents : Nat → List LineRecord → List Nat
  | _, [] => []
  | previousIndent, record :: records =>
    let indent := if record.isBlank then previousIndent else record.indent
    indent :: computeEffectiveIndents indent records

/-- The cursors and the lines of the loop of `read_block`. -/
structure BlockCursor where
  /-- One more than `i`: how many lines above are still to look at. -/
  above : Nat
  below : Nat
  aboveCounterMinIndent : Nat
  belowCounterMinIndent : Nat
  out : List LineRecord

section Block

variable (options : IndentationArgs) (minIndent finalLimit : Nat)
  (lines : List (LineRecord × Nat))

def takeAbove (cursor : BlockCursor) : BlockCursor :=
  match cursor.above with
  | 0 => cursor
  | above + 1 =>
    match lines[above]? with
    | none => { cursor with above := 0 }
    | some (record, indent) =>
      if minIndent ≤ indent then
        let taken := { cursor with above := above, out := record :: cursor.out }
        if indent = minIndent ∧ options.includeSiblings = false then
          let allowHeaderComment := options.includeHeader && record.isComment
          if allowHeaderComment || cursor.aboveCounterMinIndent == 0 then
            { taken with
              aboveCounterMinIndent := cursor.aboveCounterMinIndent + 1 }
          else { cursor with above := 0 }
        else taken
      else { cursor with above := 0 }

def takeBelow (cursor : BlockCursor) : BlockCursor :=
  match lines[cursor.below]? with
  | none => cursor
  | some (record, indent) =>
    if minIndent ≤ indent then
      let taken :=
        { cursor with
          below := cursor.below + 1, out := cursor.out ++ [record] }
      if indent = minIndent ∧ options.includeSiblings = false then
        let counted :=
          { taken with
            belowCounterMinIndent := cursor.belowCounterMinIndent + 1 }
        if 0 < cursor.belowCounterMinIndent then
          { counted with below := lines.length, out := cursor.out }
        else counted
      else taken
    else { cursor with below := lines.length }

def takeRound (cursor : BlockCursor) : BlockCursor :=
  let upper := takeAbove options minIndent lines cursor
  if finalLimit ≤ upper.out.length then upper
  else takeBelow options minIndent lines upper

/-- The loop of `read_block`, which ends after a round that takes no line. -/
def takeRounds (cursor : BlockCursor) : BlockCursor :=
  if cursor.out.length < finalLimit then
    let next := takeRound options minIndent finalLimit lines cursor
    if cursor.out.length < next.out.length then takeRounds next else next
  else cursor
termination_by finalLimit - cursor.out.length
decreasing_by
  have longer : cursor.out.length <
      (takeRound options minIndent finalLimit lines cursor).out.length := by
    assumption
  omega

end Block

def trimEmptyLines (out : List LineRecord) : List LineRecord :=
  let isEmpty (record : LineRecord) : Bool := (trim record.raw).isEmpty
  (out.dropWhile isEmpty).rdropWhile isEmpty

/-- `VecDeque::with_capacity` of references panics if their bytes exceed `isize::MAX`. -/
def capacityOverflows (capacity : Nat) : Bool := 2 ^ 63 ≤ capacity * 8

/-- `read_block` behind the checks of its arguments. -/
def collectBlock (options : IndentationArgs)
    (anchorLine limit guardLimit : Nat) (collected : List LineRecord) :
    Except ReadFailure (List String) :=
  let lines := collected.zip (computeEffectiveIndents 0 collected)
  match lines[anchorLine - 1]? with
  | none => .error (.respondToModel "anchor_line exceeds file length")
  | some (anchor, anchorIndent) =>
    let minIndent :=
      if options.maxLevels = 0 then 0
      else anchorIndent - options.maxLevels * tabWidth % 2 ^ 64
    let finalLimit := min (min limit guardLimit) collected.length
    if finalLimit = 1 then .ok [numbered anchor.number anchor.display]
    -- The capacity is the requested limit, not the one cut to the file.
    else if capacityOverflows limit then .error .panicked
    else
      let cursor : BlockCursor := ⟨anchorLine - 1, anchorLine, 0, 0, [anchor]⟩
      let last := takeRounds options minIndent finalLimit lines cursor
      .ok ((trimEmptyLines last.out).map fun record => numbered record.number record.display)

/-- `indentation::read_block`: the lines around the anchor, by indentation. -/
def readBlock (file : HostFile) (offset limit : Nat)
    (options : IndentationArgs) : Except ReadFailure (List String) :=
  let anchorLine := options.anchorLine.getD offset
  let guardLimit := options.maxLines.getD limit
  if anchorLine = 0 then .error (.respondToModel "anchor_line must be a 1-indexed line number")
  else if guardLimit = 0 then .error (.respondToModel "max_lines must be greater than zero")
  else do
    let collected ← collectFileLines fromUtf8Lossy file
    if collected.isEmpty || collected.length < anchorLine then
      .error (.respondToModel "anchor_line exceeds file length")
    else collectBlock options anchorLine limit guardLimit collected

/-! ## The handler -/

/-- The lines that `handle` joins, of the file that the path leads to. -/
def readLines (args : ReadFileArgs) (file : HostFile) : Except ReadFailure (List String) :=
  match args.mode with
  | .slice => readSlice fromUtf8Lossy file args.offset args.limit
  | .indentation => readBlock fromUtf8Lossy file args.offset args.limit (args.indentation.getD {})

/--
`ReadFileHandler::handle`: it opens the path as it is written and looks at no
policy.
-/
def handleReadFile (parseArguments : String → Except String ReadFileArgs)
    (state : FileSystemState) (payload : ToolPayload) : Except ReadFailure ToolOutput := do
  match payload with
  | .function arguments =>
    match parseArguments arguments with
    | .error error => .error (.respondToModel ("failed to parse function arguments: " ++ error))
    | .ok args =>
      if args.offset = 0 then .error (.respondToModel "offset must be a 1-indexed line number")
      else if args.limit = 0 then .error (.respondToModel "limit must be greater than zero")
      else
        let path := parsePath args.filePath
        if path.isAbsolute then
          let collected ← readLines fromUtf8Lossy args (state path)
          .ok (.content [.inputText ("\n".intercalate collected)] (some true))
        else .error (.respondToModel "file_path must be an absolute path")
  | _ => .error (.respondToModel "read_file handler received unsupported payload")

/-! ## Which arguments reach the file -/

/-- The arguments pass every check in front of opening the file. -/
structure ReadFileArgs.ReachesFile (args : ReadFileArgs) : Prop where
  offset : args.offset ≠ 0
  limit : args.limit ≠ 0
  isAbsolute : (parsePath args.filePath).isAbsolute = true
  anchorLine : args.mode = .indentation → (args.indentation.getD {}).anchorLine.getD args.offset ≠ 0
  maxLines : args.mode = .indentation → (args.indentation.getD {}).maxLines.getD args.limit ≠ 0

variable {fromUtf8Lossy}

/-- Arguments that fail a check of the indentation mode read no file. -/
theorem readLines_congr (offset : args.offset ≠ 0) (limit : args.limit ≠ 0)
    (isAbsolute : (parsePath args.filePath).isAbsolute = true) {first second : HostFile}
    (same : args.ReachesFile → first = second) :
    readLines fromUtf8Lossy args first = readLines fromUtf8Lossy args second := by
  cases mode : args.mode with
  | slice =>
    have reaches : args.ReachesFile := ⟨offset, limit, isAbsolute, by simp [mode], by simp [mode]⟩
    rw [same reaches]
  | indentation =>
    simp only [readLines, mode, readBlock]
    split_ifs with anchor guard
    · rfl
    · rfl
    · rw [same ⟨offset, limit, isAbsolute, fun _ => anchor, fun _ => guard⟩]

theorem readLines_absent (reaches : args.ReachesFile) (error : String) :
    readLines fromUtf8Lossy args (.absent error) = .error (failedToRead error) := by
  cases mode : args.mode with
  | slice => simp [readLines, mode, readSlice, HostFile.openFile]
  | indentation =>
    simp [readLines, mode, readBlock, reaches.anchorLine mode,
      reaches.maxLines mode, collectFileLines, HostFile.openFile,
      Except.bind, Bind.bind]

def ReadMode.emptyFileError : ReadMode → String
  | .slice => "offset exceeds file length"
  | .indentation => "anchor_line exceeds file length"

theorem readLines_empty (reaches : args.ReachesFile) :
    readLines fromUtf8Lossy args (.present true none [] none) =
      .error (.respondToModel args.mode.emptyFileError) := by
  have unseen : 0 < args.offset := Nat.pos_of_ne_zero reaches.offset
  cases mode : args.mode with
  | slice =>
    simp [readLines, mode, readSlice, HostFile.openFile, OpenFile.buffers,
      collectSlice, unseen, ReadMode.emptyFileError, Except.bind, Bind.bind]
  | indentation =>
    simp [readLines, mode, readBlock, reaches.anchorLine mode,
      reaches.maxLines mode, collectFileLines, HostFile.openFile,
      OpenFile.buffers, ReadMode.emptyFileError, Except.bind, Bind.bind]

variable (parseArguments : String → Except String ReadFileArgs)

theorem handleReadFile_congr {payload : ToolPayload}
    (same : ∀ arguments args, payload = .function arguments →
      parseArguments arguments = .ok args → args.ReachesFile →
        before (parsePath args.filePath) = after (parsePath args.filePath)) :
    handleReadFile fromUtf8Lossy parseArguments before payload =
      handleReadFile fromUtf8Lossy parseArguments after payload := by
  unfold handleReadFile
  split
  · next arguments =>
    split
    · rfl
    · next args parsed =>
      split_ifs with offset limit
      · rfl
      · rfl
      · by_cases isAbsolute : (parsePath args.filePath).isAbsolute = true
        · simp only [if_pos isAbsolute]
          rw [readLines_congr offset limit isAbsolute (same arguments args rfl parsed)]
        · simp only [if_neg isAbsolute]
  · rfl

/-- Arguments that reach a file return different results for two files. -/
theorem handleReadFile_ne {arguments : String} (parsed : parseArguments arguments = .ok args)
    (reaches : args.ReachesFile)
    (absent : before (parsePath args.filePath) = .absent "")
    (empty : after (parsePath args.filePath) = .present true none [] none) :
    handleReadFile fromUtf8Lossy parseArguments before (.function arguments) ≠
      handleReadFile fromUtf8Lossy parseArguments after (.function arguments) := by
  simp only [handleReadFile, parsed, reaches.offset, if_false, reaches.limit,
    reaches.isAbsolute, if_true, absent, empty, readLines_absent reaches,
    readLines_empty reaches, failedToRead, ReadFailure.respondToModel, Bind.bind, Except.bind]
  cases args.mode <;> decide

end Decoding

end Codex.FileTools.ReadFile
