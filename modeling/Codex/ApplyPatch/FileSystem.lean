import Codex.ApplyPatch.Patch

/-!
# The file system of a patch

Absolute paths as `utils/absolute-path` resolves them on Unix, and the
operations of `ExecutorFileSystem` that applying a patch uses, over a map from
paths to regular text files.  A disk carries the outcomes of its coming writes,
directory creations and deletes.  A failed write may leave anything in the
file; a failed delete leaves the file as it was.
-/

namespace Codex.ApplyPatch.FileSystem

open Patch Rust.Text

/-! ## Paths -/

/-- `AbsolutePathBuf`: the components below the root. -/
structure AbsolutePathBuf where
  components : List String
deriving DecidableEq

variable (path : AbsolutePathBuf)

def AbsolutePathBuf.display : String := "/" ++ "/".intercalate path.components

def AbsolutePathBuf.parent : Option AbsolutePathBuf :=
  if path.components.isEmpty then none else some ⟨path.components.dropLast⟩

/-- `Path::components`, without the root. -/
def pathComponents (path : String) : List String :=
  ((path.toList.splitOn '/').map String.ofList).filter fun component =>
    component ≠ "" ∧ component ≠ "."

def normalizeComponent (normalized : List String) (component : String) : List String :=
  if component = ".." then normalized.dropLast
  else normalized ++ [component]

variable (home : Option AbsolutePathBuf) (path : String)

def maybeExpandHomeDirectory : String :=
  match home, stripPrefix? path "~" with
  | some home, some rest =>
    if rest.isEmpty then home.display
    else
      match stripPrefix? rest "/" with
      | some rest => home.display ++ "/" ++ String.ofList (rest.toList.dropWhile (· = '/'))
      | none => path
  | _, _ => path

/-- `AbsolutePathBuf::resolve_path_against_base`, and `AbsolutePathBuf::join`. -/
def resolvePathAgainstBase (base : AbsolutePathBuf) : AbsolutePathBuf :=
  let expanded := maybeExpandHomeDirectory home path
  let start := if startsWith expanded "/" then [] else base.components
  ⟨(pathComponents expanded).foldl normalizeComponent start⟩

/-- `Hunk::path`, which is the destination of a move. -/
def hunkPath : Hunk → String
  | .addFile path _ => path
  | .deleteFile path => path
  | .updateFile _ (some movePath) _ => movePath
  | .updateFile path none _ => path

/-- The path that `Hunk::resolve_path` resolves. -/
def hunkSource : Hunk → String
  | .addFile path _ => path
  | .deleteFile path => path
  | .updateFile path _ _ => path

structure PathBase where
  home : Option AbsolutePathBuf
  cwd : AbsolutePathBuf
deriving DecidableEq

variable (base : PathBase)

def PathBase.resolve (path : String) : AbsolutePathBuf :=
  resolvePathAgainstBase base.home path base.cwd

def PathBase.resolvePath (hunk : Hunk) : AbsolutePathBuf := base.resolve (hunkSource hunk)

def PathBase.moveDestination : Hunk → Option AbsolutePathBuf
  | .updateFile _ (some dest) _ => some (base.resolve dest)
  | _ => none

/-! ## Operations -/

inductive ErrorKind where
  | notFound
  | invalidInput
  | other
deriving DecidableEq

structure IoError where
  kind : ErrorKind
  message : String
deriving DecidableEq

def fileNotFound : IoError := ⟨.notFound, "No such file or directory"⟩

structure FileMetadata where
  isDirectory : Bool
  isFile : Bool
  isSymlink : Bool
deriving DecidableEq

/-- What becomes of one operation, and of the file if a write fails. -/
inductive Outcome where
  | succeeds
  | fails (error : IoError) (leaves : Option String)
deriving DecidableEq

abbrev Files := AbsolutePathBuf → Option String

/-- The files, and the outcomes of what is done next; then all succeeds. -/
structure Disk where
  files : Files
  outcomes : List Outcome

variable (disk : Disk) (path : AbsolutePathBuf)

def Disk.readFileText : Except IoError String :=
  match disk.files path with
  | some text => .ok text
  | none => .error fileNotFound

def Disk.getMetadata : Except IoError FileMetadata :=
  match disk.files path with
  | some _ => .ok ⟨false, true, false⟩
  | none => .error fileNotFound

def Disk.outcome : Outcome := disk.outcomes.headD .succeeds

variable (text : Option String)

def Disk.setFile : Disk := { disk with files := Function.update disk.files path text }

/-- The disk after an operation has had its outcome. -/
def Disk.advance : Disk := { disk with outcomes := disk.outcomes.tail }

def Disk.writeFile (contents : String) : Disk × Except IoError Unit :=
  match disk.outcome with
  | .succeeds => (disk.advance.setFile path (some contents), .ok ())
  | .fails error leaves => (disk.advance.setFile path leaves, .error error)

def Disk.createDirectory : Disk × Except IoError Unit :=
  match disk.outcome with
  | .succeeds => (disk.advance, .ok ())
  | .fails error _ => (disk.advance, .error error)

def Disk.remove : Disk × Except IoError Unit :=
  match disk.files path with
  | none => (disk, .error fileNotFound)
  | some _ =>
    match disk.outcome with
    | .succeeds => (disk.advance.setFile path none, .ok ())
    | .fails error _ => (disk.advance, .error error)

@[simp]
theorem Disk.files_setFile :
    (disk.setFile path text).files = Function.update disk.files path text := rfl

@[simp]
theorem Disk.files_advance : disk.advance.files = disk.files := rfl

end Codex.ApplyPatch.FileSystem
