import Codex.Rust.Text
import Mathlib.Data.List.TakeWhile

/-!
# Reading a text by lines

`str::lines` and the test for blank text.  A text that ends at a line end can
be continued: the lines of the continuation follow its own.
-/

namespace Codex.Rust.Lines

open Text List

/-! ## Lines -/

/-- A line ending may be written with a carriage return. -/
def stripCarriageReturn (line : List Char) : List Char :=
  if line.getLast? = some '\r' then line.dropLast else line

/-- The lines of a text, where `current` has been read of the first one. -/
def linesFrom (current : List Char) : List Char → List (List Char)
  | [] => if current.isEmpty then [] else [current]
  | char :: rest =>
    if char = '\n' then stripCarriageReturn current :: linesFrom [] rest
    else linesFrom (current ++ [char]) rest

variable (text : String)

def lines : List String := (linesFrom [] text.toList).map String.ofList

/-- Whether a text is empty or ends with a line feed. -/
def endsLine : Bool := text.toList.getLast?.all (· == '\n')

theorem linesFrom_append_feed (current front rest : List Char) :
    linesFrom current (front ++ '\n' :: rest) =
      linesFrom current (front ++ ['\n']) ++ linesFrom [] rest := by
  induction front generalizing current with
  | nil => simp [linesFrom]
  | cons char front ih =>
    by_cases feed : char = '\n'
    · simp only [cons_append, linesFrom, feed, if_true, ih]
    · simp only [cons_append, linesFrom, feed, if_false, ih]

theorem linesFrom_line (current line rest : List Char) (noFeed : '\n' ∉ line) :
    linesFrom current (line ++ '\n' :: rest) =
      stripCarriageReturn (current ++ line) :: linesFrom [] rest := by
  induction line generalizing current with
  | nil => simp [linesFrom]
  | cons char line ih =>
    rw [mem_cons, not_or] at noFeed
    rw [cons_append, linesFrom, if_neg (Ne.symm noFeed.1), ih _ noFeed.2]
    simp

theorem lines_append {text : String} (tail : String) (ends : endsLine text = true) :
    lines (text ++ tail) = lines text ++ lines tail := by
  unfold lines
  rw [String.toList_append, ← map_append]
  congr 1
  rcases eq_nil_or_concat text.toList with
    empty | ⟨front, last, shape⟩
  · rw [empty]
    rfl
  · have feed : last = '\n' := by simpa [endsLine, shape] using ends
    rw [shape, feed, concat_eq_append, append_assoc, singleton_append, linesFrom_append_feed]

theorem lines_line (line tail : String) (noFeed : '\n' ∉ line.toList)
    (noReturn : line.toList.getLast? ≠ some '\r') :
    lines (line ++ "\n" ++ tail) = line :: lines tail := by
  have shape : (line ++ "\n" ++ tail).toList = line.toList ++ '\n' :: tail.toList := by simp
  unfold lines
  rw [shape, linesFrom_line [] _ _ noFeed, nil_append,
    stripCarriageReturn, if_neg noReturn, map_cons,
    String.ofList_toList]

/-! ## Blank text -/

def isBlank : Bool := (trim text).isEmpty

theorem isBlank_iff : isBlank text = true ↔
      ∀ char ∈ text.toList, isWhiteSpace char = true := by
  rw [isBlank, trim, trimEnd, trimStart, String.isEmpty_iff, ← String.toList_eq_nil_iff]
  simp only [String.toList_ofList, reverse_eq_nil_iff, dropWhile_eq_nil_iff, mem_reverse]
  constructor
  · intro rest char mem
    rw [← takeWhile_append_dropWhile (p := isWhiteSpace) (l := text.toList)] at mem
    rcases mem_append.mp mem with front | back
    · exact mem_takeWhile_imp front
    · exact rest char back
  · intro all char mem
    exact all char (dropWhile_subset _ mem)

theorem isBlank_append (left right : String) :
    isBlank (left ++ right) = (isBlank left && isBlank right) := by
  rw [Bool.eq_iff_iff, Bool.and_eq_true, isBlank_iff, isBlank_iff,
    isBlank_iff, String.toList_append, forall_mem_append]

end Codex.Rust.Lines
