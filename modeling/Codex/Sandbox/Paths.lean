import Mathlib.Data.List.Infix
import Mathlib.Data.List.Lex

/-!
# Paths

The model of `std::path::Path` and of `utils/absolute-path/src`, on Unix.  A
path is read as its components.  An absolute path that was normalised has
ordinary components only, so that it is a list of names and the prefix order
on lists is `Path::starts_with`.
-/

namespace Codex.Sandbox.Paths

/--
`std::path::Component`, the root apart.  Iteration yields `.` only at the
start of a relative path.
-/
inductive Component where
  | curDir
  | parentDir
  | normal (name : String)
deriving DecidableEq

def Component.text : Component → String
  | .curDir => "."
  | .parentDir => ".."
  | .normal name => name

structure Path where
  isAbsolute : Bool
  components : List Component
deriving DecidableEq

/-- `AbsolutePathBuf`: the names below the root. -/
abbrev AbsolutePathBuf := List String

variable (path : AbsolutePathBuf)

def asPath : Path := ⟨true, path.map .normal⟩

/-- `Path::starts_with`, for normalised paths. -/
def startsWith (path base : AbsolutePathBuf) : Bool := base.isPrefixOf path

@[simp] theorem startsWith_iff {path base : AbsolutePathBuf} :
    startsWith path base = true ↔ base <+: path :=
  List.isPrefixOf_iff_prefix

/-- `Path::starts_with`, for any path and a normalised base. -/
def Path.startsWith (path : Path) (base : AbsolutePathBuf) : Bool :=
  path.isAbsolute && (base.map Component.normal).isPrefixOf path.components

/-! ## Normalisation -/

def pushComponent : Component → AbsolutePathBuf
  | .curDir => path
  | .parentDir => path.dropLast
  | .normal name => path ++ [name]

/-- `normalize_path` of a path that continues a normalised one. -/
def normalizeFrom (base : AbsolutePathBuf) (components : List Component) : AbsolutePathBuf :=
  components.foldl pushComponent base

theorem normalizeFrom_normal (base names : AbsolutePathBuf) :
    normalizeFrom base (names.map .normal) = base ++ names := by
  induction names generalizing base with
  | nil => simp [normalizeFrom]
  | cons name names ih =>
    have rest := ih (base ++ [name])
    simpa [normalizeFrom, pushComponent] using rest

variable (homeDirectory : Option AbsolutePathBuf)

/-! ## Resolution -/

def maybeExpandHomeDirectory (path : Path) : Path :=
  match homeDirectory, path with
  | some home, ⟨false, .normal "~" :: rest⟩ => ⟨true, home.map .normal ++ rest⟩
  | _, path => path

def resolvePathAgainstBase (path : Path) (base : AbsolutePathBuf) : AbsolutePathBuf :=
  let expanded := maybeExpandHomeDirectory homeDirectory path
  normalizeFrom (if expanded.isAbsolute then [] else base) expanded.components

/--
`AbsolutePathBuf::from_absolute_path`.  Only a relative path needs the
current directory of the process, which may be gone.
-/
def fromAbsolutePath (homeDirectory currentDirectory : Option AbsolutePathBuf)
    (path : Path) : Option AbsolutePathBuf :=
  let expanded := maybeExpandHomeDirectory homeDirectory path
  if expanded.isAbsolute then some (normalizeFrom [] expanded.components)
  else currentDirectory.map fun base => normalizeFrom base expanded.components

/-! ## Texts -/

def parsePath (text : String) : Path :=
  let pieces := (text.toList.splitOn '/').map String.ofList
  let component (piece : String) : Option Component :=
    if piece == "" then none
    else if piece == "." then none
    else if piece == ".." then some .parentDir
    else some (.normal piece)
  ⟨text.toList.head? == some '/',
    -- A leading `.` of a relative path is the only one that is yielded.
    (if pieces.head? == some "." then [.curDir] else []) ++ pieces.filterMap component⟩

def toText : String := "/" ++ "/".intercalate path

end Codex.Sandbox.Paths
