import Codex.ApplyPatch.Patch
import Mathlib.Data.List.Sort

/-!
# New contents from chunks

The pure part of an update in `apply-patch/src/lib.rs` and
`seek_sequence.rs`: the old lines of each chunk are looked for in the file,
with less and less strictness, and replaced by its new lines.
-/

namespace Codex.ApplyPatch.Replacements

open Patch Rust.Text

/-! ## Looking for lines -/

/-- The character that `normalise` puts for a typographic one. -/
def normaliseChar (char : Char) : Char :=
  if char ∈ ['\u2010', '\u2011', '\u2012', '\u2013', '\u2014',
      '\u2015', '\u2212'] then '-'
  else if char ∈ ['\u2018', '\u2019', '\u201A', '\u201B'] then '\''
  else if char ∈ ['\u201C', '\u201D', '\u201E', '\u201F'] then '\"'
  else if char ∈ ['\u00A0', '\u2002', '\u2003', '\u2004', '\u2005',
      '\u2006', '\u2007', '\u2008', '\u2009', '\u200A', '\u202F',
      '\u205F', '\u3000'] then ' '
  else char

def normalise (text : String) : String := String.ofList ((trim text).toList.map normaliseChar)

variable (view : String → String) (lines pattern : List String)

/-- Whether the pattern stands at an index, line by line under `view`. -/
def matchesAt (index : Nat) : Bool :=
  ((lines.drop index).take pattern.length).map view == pattern.map view

def seekPass (searchStart : Nat) : Option Nat :=
  (List.range' searchStart (lines.length - pattern.length + 1 - searchStart)).find?
    (matchesAt view lines pattern)

def seekSequence (start : Nat) (eof : Bool) : Option Nat :=
  if pattern.isEmpty then some start
  else if lines.length < pattern.length then none
  else
    let searchStart := if eof then lines.length - pattern.length else start
    (seekPass id lines pattern searchStart).orElse fun _ =>
    (seekPass trimEnd lines pattern searchStart).orElse fun _ =>
    (seekPass trim lines pattern searchStart).orElse fun _ =>
    seekPass normalise lines pattern searchStart

/-! ## Replacements -/

/-- `(start_index, old_len, new_lines)`. -/
structure Replacement where
  startIndex : Nat
  oldLen : Nat
  newLines : List String
deriving DecidableEq

def contextMessage (contextLine path : String) : String :=
  "Failed to find context '" ++ contextLine ++ "' in " ++ path

def expectedLinesMessage (path : String) (oldLines : List String) : String :=
  "Failed to find expected lines in " ++ path ++ ":\n" ++ "\n".intercalate oldLines

variable (lines : List String)

def endsEmpty : Bool := lines.getLast? == some ""

/-- The line from which a chunk's old lines are looked for. -/
def seekContext (originalLines : List String) (path : String)
    (changeContext : Option String) (lineIndex : Nat) : Except String Nat :=
  match changeContext with
  | none => .ok lineIndex
  | some contextLine =>
    match seekSequence originalLines [contextLine] lineIndex false with
    | some index => .ok (index + 1)
    | none => .error (contextMessage contextLine path)

/--
The replacement of a chunk and the line after it.  A pattern that is not found
and ends with an empty line is tried again without that line, which may stand
for the final newline of the file.
-/
def chunkReplacement (originalLines : List String) (path : String)
    (chunk : UpdateFileChunk) (lineIndex : Nat) : Except String (Replacement × Nat) :=
  if chunk.oldLines.isEmpty then
    let insertionIndex :=
      if endsEmpty originalLines then originalLines.length - 1
      else originalLines.length
    .ok (⟨insertionIndex, 0, chunk.newLines⟩, lineIndex)
  else
    match seekSequence originalLines chunk.oldLines lineIndex
        chunk.isEndOfFile with
    | some startIndex =>
      .ok (⟨startIndex, chunk.oldLines.length, chunk.newLines⟩, startIndex + chunk.oldLines.length)
    | none =>
      if endsEmpty chunk.oldLines then
        let pattern := chunk.oldLines.dropLast
        let newSlice :=
          if endsEmpty chunk.newLines then chunk.newLines.dropLast
          else chunk.newLines
        match seekSequence originalLines pattern lineIndex
            chunk.isEndOfFile with
        | some startIndex =>
          .ok (⟨startIndex, pattern.length, newSlice⟩, startIndex + pattern.length)
        | none => .error (expectedLinesMessage path chunk.oldLines)
      else .error (expectedLinesMessage path chunk.oldLines)

/-- The loop of `compute_replacements`, before the replacements are sorted. -/
def collectReplacements (originalLines : List String) (path : String) :
    List UpdateFileChunk → Nat → Except String (List Replacement)
  | [], _ => .ok []
  | chunk :: rest, lineIndex => do
      let lineIndex ←
        seekContext originalLines path chunk.changeContext lineIndex
      let (replacement, lineIndex) ←
        chunkReplacement originalLines path chunk lineIndex
      let replacements ← collectReplacements originalLines path rest lineIndex
      return replacement :: replacements

def computeReplacements (originalLines : List String) (path : String)
    (chunks : List UpdateFileChunk) : Except String (List Replacement) := do
  let replacements ← collectReplacements originalLines path chunks 0
  return replacements.insertionSort fun left right => left.startIndex ≤ right.startIndex

def applyReplacement (replacement : Replacement) : List String :=
  lines.take replacement.startIndex ++ replacement.newLines ++
    lines.drop (replacement.startIndex + replacement.oldLen)

/-- `apply_replacements`: the last replacement is made first. -/
def applyReplacements (replacements : List Replacement) : List String :=
  replacements.reverse.foldl applyReplacement lines

/-! ## Contents -/

/-- `split('\n')`, without the empty line that a final newline leaves. -/
def originalLines (contents : String) : List String :=
  let lines := (contents.toList.splitOn '\n').map String.ofList
  if endsEmpty lines then lines.dropLast else lines

/--
`derive_new_contents_from_chunks` on the contents of the file: the new
contents, which end with a newline, or the text of the error.
-/
def deriveNewContents (contents path : String)
    (chunks : List UpdateFileChunk) : Except String String := do
  let lines := originalLines contents
  let replacements ← computeReplacements lines path chunks
  let newLines := applyReplacements lines replacements
  return "\n".intercalate (if endsEmpty newLines then newLines else newLines ++ [""])

example : deriveNewContents "a\nb\n c\n" "/f"
      [⟨some "a", ["b"], ["x", "y"], false⟩, ⟨none, [], ["z"], false⟩,
        ⟨none, ["c", ""], ["d", ""], true⟩] = .ok "a\nx\ny\nd\nz\n" := by
  decide +kernel

end Codex.ApplyPatch.Replacements
