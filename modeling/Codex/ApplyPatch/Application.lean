import Codex.ApplyPatch.FileSystem
import Codex.ApplyPatch.Replacements

/-!
# Applying hunks

`apply_hunks` of `apply-patch/src/lib.rs`.  The hunks are applied one after
another.  Each committed change is appended to a delta, which also says whether
it is exact; the first failure ends the run and keeps the delta so far.
-/

namespace Codex.ApplyPatch.Application

open FileSystem Patch Replacements

/-! ## Deltas and errors -/

inductive AppliedPatchFileChange where
  | add (content : String) (overwrittenContent : Option String)
  | delete (content : String)
  | update (movePath : Option AbsolutePathBuf) (oldContent : String)
      (overwrittenMoveContent : Option String) (newContent : String)
deriving DecidableEq

structure AppliedPatchChange where
  path : AbsolutePathBuf
  change : AppliedPatchFileChange
deriving DecidableEq

structure AppliedPatchDelta where
  changes : List AppliedPatchChange
  exact : Bool
deriving DecidableEq

def AppliedPatchDelta.empty : AppliedPatchDelta := ⟨[], true⟩

inductive ApplyPatchError where
  | parseError (error : ParseError)
  | ioError (context : String) (source : IoError)
  | computeReplacements (message : String)
  | implicitInvocation
deriving DecidableEq

structure ApplyPatchFailure where
  error : ApplyPatchError
  delta : AppliedPatchDelta
deriving DecidableEq

/-- An `anyhow::Error`: its text, and the `io::Error` under its context. -/
structure AnyhowError where
  message : String
  io : Option IoError
deriving DecidableEq

def withContext (context : String) (error : IoError) : AnyhowError := ⟨context, some error⟩

def ApplyPatchError.display : ApplyPatchError → String
  | .parseError (.invalidPatchError message) => "invalid patch: " ++ message
  | .parseError (.invalidHunkError message lineNumber) =>
    "invalid hunk at line " ++ toString lineNumber ++ ", " ++ message
  | .ioError context source => context ++ ": " ++ source.message
  | .computeReplacements message => message
  | .implicitInvocation =>
    "patch detected without explicit call to apply_patch. Rerun as " ++
      "[\"apply_patch\", \"<patch>\"]"

structure AffectedPaths where
  added : List String
  modified : List String
  deleted : List String
deriving DecidableEq

/-- What the loop of `apply_hunks_to_files` changes. -/
structure Progress where
  disk : Disk
  delta : AppliedPatchDelta
  affected : AffectedPaths

variable (disk : Disk)

def Progress.start : Progress := ⟨disk, .empty, ⟨[], [], []⟩⟩

namespace Progress

variable (progress : Progress)

def withDisk (disk : Disk) : Progress := { progress with disk := disk }

/-- `delta.exact &= …`. -/
def andExact (exact : Bool) : Progress :=
  { progress with delta.exact := progress.delta.exact && exact }

def push (path : AbsolutePathBuf) (change : AppliedPatchFileChange) : Progress :=
  { progress with
    delta.changes := progress.delta.changes ++ [⟨path, change⟩] }

variable (path : String)

def noteAdded : Progress := { progress with affected.added := progress.affected.added ++ [path] }

def noteModified : Progress :=
  { progress with affected.modified := progress.affected.modified ++ [path] }

def noteDeleted : Progress :=
  { progress with affected.deleted := progress.affected.deleted ++ [path] }

end Progress

variable (path : AbsolutePathBuf)

/-! ## Helpers of the loop -/

def ensureNotDirectory : Except IoError Unit :=
  match disk.getMetadata path with
  | .error error => .error error
  | .ok metadata =>
    if metadata.isDirectory then .error ⟨.invalidInput, "path is a directory"⟩
    else .ok ()

def removeFailureWasSideEffectFree (expectedContent : Option String) : Bool :=
  match expectedContent with
  | some expected =>
    match disk.readFileText path with
    | .ok content => content == expected
    | .error _ => false
  | none => false

/-- `note_existing_path_delta_support`: what it leaves of `exact`. -/
def noteExistingPathDeltaSupport : Bool :=
  match disk.getMetadata path with
  | .ok metadata => metadata.isFile && !metadata.isSymlink
  | .error error => error.kind == .notFound

/-- `read_optional_file_text_for_delta`, and what it leaves of `exact`. -/
def readOptionalFileTextForDelta : Option String × Bool :=
  let supported := noteExistingPathDeltaSupport disk path
  match disk.readFileText path with
  | .ok content => (some content, supported)
  | .error error => (none, supported && error.kind == .notFound)

def failedToWrite : String := "Failed to write file " ++ path.display

def writeFileWithMissingParentRetry (contents : String) : Disk × Except AnyhowError Unit :=
  match disk.writeFile path contents with
  | (disk, .ok ()) => (disk, .ok ())
  | (disk, .error error) =>
    if error.kind = .notFound then
      let created := if path.parent.isSome then disk.createDirectory else (disk, .ok ())
      match created with
      | (disk, .error error) =>
        (disk, .error (withContext ("Failed to create parent directories for " ++ path.display)
          error))
      | (disk, .ok ()) =>
        match disk.writeFile path contents with
        | (disk, .ok ()) => (disk, .ok ())
        | (disk, .error error) => (disk, .error (withContext (failedToWrite path) error))
    else (disk, .error (withContext (failedToWrite path) error))

structure AppliedPatch where
  originalContents : String
  newContents : String
deriving DecidableEq

def deriveNewContentsFromChunks
    (chunks : List UpdateFileChunk) : Except ApplyPatchError AppliedPatch :=
  match disk.readFileText path with
  | .error error => .error (.ioError ("Failed to read file to update " ++ path.display) error)
  | .ok originalContents =>
    match deriveNewContents originalContents path.display chunks with
    | .error message => .error (.computeReplacements message)
    | .ok newContents => .ok ⟨originalContents, newContents⟩

/-! ## The loop -/

section Loop

variable (base : PathBase)

/-- The result of a round, and what it has changed. -/
abbrev Round := Progress × Except AnyhowError Unit

def applyAddFile (hunk : Hunk) (contents : String) (progress : Progress) : Round :=
  let path := base.resolvePath hunk
  let (overwrittenContent, exact) := readOptionalFileTextForDelta progress.disk path
  let progress := progress.andExact exact
  match writeFileWithMissingParentRetry progress.disk path contents with
  | (disk, .error error) => ((progress.withDisk disk).andExact false, .error error)
  | (disk, .ok ()) =>
    (((progress.withDisk disk).push path
      (.add contents overwrittenContent)).noteAdded (hunkPath hunk), .ok ())

def applyDeleteFile (hunk : Hunk) (progress : Progress) : Round :=
  let path := base.resolvePath hunk
  let context := "Failed to delete file " ++ path.display
  let progress := progress.andExact (noteExistingPathDeltaSupport progress.disk path)
  let deletedContent := (progress.disk.readFileText path).toOption
  let progress := progress.andExact deletedContent.isSome
  match ensureNotDirectory progress.disk path with
  | .error error => (progress, .error (withContext context error))
  | .ok () =>
    match progress.disk.remove path with
    | (disk, .error error) =>
      ((progress.withDisk disk).andExact (removeFailureWasSideEffectFree disk path deletedContent),
        .error (withContext context error))
    | (disk, .ok ()) =>
      let progress := progress.withDisk disk
      let progress :=
        match deletedContent with
        | some content => progress.push path (.delete content)
        | none => progress
      (progress.noteDeleted (hunkPath hunk), .ok ())

/-- The arm of the loop for `Hunk::UpdateFile` with a destination. -/
def applyMove (hunk : Hunk) (dest : AbsolutePathBuf) (patch : AppliedPatch)
    (progress : Progress) : Round :=
  let path := base.resolvePath hunk
  let context := "Failed to remove original " ++ path.display
  let (overwrittenMoveContent, exact) := readOptionalFileTextForDelta progress.disk dest
  let progress := progress.andExact exact
  match writeFileWithMissingParentRetry progress.disk dest
      patch.newContents with
  | (disk, .error error) => ((progress.withDisk disk).andExact false, .error error)
  | (disk, .ok ()) =>
    let progress := progress.withDisk disk
    -- The write to the destination stands as an addition of its own until
    -- the original is removed.
    let written := progress.push dest
      (.add patch.newContents overwrittenMoveContent)
    match ensureNotDirectory disk path with
    | .error error => (written, .error (withContext context error))
    | .ok () =>
      match disk.remove path with
      | (disk, .error error) =>
        ((written.withDisk disk).andExact (removeFailureWasSideEffectFree disk path
            (some patch.originalContents)),
          .error (withContext context error))
      | (disk, .ok ()) =>
        (((progress.withDisk disk).push path (.update (some dest) patch.originalContents
            overwrittenMoveContent patch.newContents)).noteModified
          (hunkPath hunk), .ok ())

/-- The arm of the loop for `Hunk::UpdateFile` without a destination. -/
def applyUpdateInPlace (hunk : Hunk) (patch : AppliedPatch) (progress : Progress) : Round :=
  let path := base.resolvePath hunk
  match progress.disk.writeFile path patch.newContents with
  | (disk, .error error) =>
    ((progress.withDisk disk).andExact false, .error (withContext (failedToWrite path) error))
  | (disk, .ok ()) =>
    (((progress.withDisk disk).push path (.update none patch.originalContents none
        patch.newContents)).noteModified (hunkPath hunk), .ok ())

/-- One round of the loop of `apply_hunks_to_files`. -/
def applyHunk (hunk : Hunk) (progress : Progress) : Round :=
  match hunk with
  | .addFile _ contents => applyAddFile base hunk contents progress
  | .deleteFile _ => applyDeleteFile base hunk progress
  | .updateFile _ movePath chunks =>
    let path := base.resolvePath hunk
    let progress := progress.andExact (noteExistingPathDeltaSupport progress.disk path)
    match deriveNewContentsFromChunks progress.disk path chunks with
    | .error error => (progress, .error ⟨error.display, none⟩)
    | .ok patch =>
      match movePath with
      | some dest => applyMove base hunk (base.resolve dest) patch progress
      | none => applyUpdateInPlace base hunk patch progress

def applyEach : List Hunk → Progress → Round
  | [], progress => (progress, .ok ())
  | hunk :: rest, progress =>
    match applyHunk base hunk progress with
    | (progress, .error error) => (progress, .error error)
    | (progress, .ok ()) => applyEach rest progress

def applyHunksToFiles (hunks : List Hunk) (progress : Progress) : Round :=
  if hunks.isEmpty then (progress, .error ⟨"No files were modified.", none⟩)
  else applyEach base hunks progress

def printSummary (affected : AffectedPaths) : String :=
  let listed := fun (letter : String) (paths : List String) =>
    String.join (paths.map fun path => letter ++ " " ++ path ++ "\n")
  "Success. Updated the following files:\n" ++ listed "A" affected.added ++
    listed "M" affected.modified ++ listed "D" affected.deleted

/-- The two writers: the error with which each one fails, if it does. -/
structure Console where
  stdout : Option IoError
  stderr : Option IoError
deriving DecidableEq

/-- What `apply_hunks` returns, what it has printed and what it leaves. -/
structure Applied where
  result : Except ApplyPatchFailure AppliedPatchDelta
  stdout : String
  stderr : String
  disk : Disk

def fromIoError (error : IoError) : ApplyPatchError := .ioError "I/O error" error

def applyHunks (hunks : List Hunk) (console : Console) (disk : Disk) : Applied :=
  match applyHunksToFiles base hunks (.start disk) with
  | (progress, .ok ()) =>
    match console.stdout with
    | some error => ⟨.error ⟨fromIoError error, progress.delta⟩, "", "", progress.disk⟩
    | none => ⟨.ok progress.delta, printSummary progress.affected, "", progress.disk⟩
  | (progress, .error error) =>
    match console.stderr with
    | some writeError => ⟨.error ⟨fromIoError writeError, progress.delta⟩, "", "", progress.disk⟩
    | none =>
      let failure :=
        match error.io with
        | some source => fromIoError source
        | none => .ioError error.message ⟨.other, error.message⟩
      ⟨.error ⟨failure, progress.delta⟩, "", error.message ++ "\n", progress.disk⟩

end Loop

/-- The delta that `apply_hunks` returns, as a result or in its failure. -/
def Applied.delta (applied : Applied) : AppliedPatchDelta :=
  match applied.result with
  | .ok delta => delta
  | .error failure => failure.delta

/-! ## What the helpers do on regular files -/

@[simp]
theorem noteExistingPathDeltaSupport_eq : noteExistingPathDeltaSupport disk path = true := by
  unfold noteExistingPathDeltaSupport Disk.getMetadata
  cases disk.files path <;> rfl

@[simp]
theorem readOptionalFileTextForDelta_eq :
    readOptionalFileTextForDelta disk path = (disk.files path, true) := by
  unfold readOptionalFileTextForDelta Disk.readFileText
  rw [noteExistingPathDeltaSupport_eq]
  cases disk.files path <;> rfl

open Progress

@[simp]
theorem andExact_true (progress : Progress) : progress.andExact true = progress := by
  simp [andExact]

variable {disk : Disk} {path : AbsolutePathBuf} {next : Disk} {contents : String}

theorem ensureNotDirectory_of_some {text : String} (present : disk.files path = some text) :
    ensureNotDirectory disk path = .ok () := by
  simp [ensureNotDirectory, Disk.getMetadata, present]

theorem writeFile_ok (written : disk.writeFile path contents = (next, .ok ())) :
    next.files = Function.update disk.files path (some contents) := by
  unfold Disk.writeFile at written
  split at written
  · cases written
    rfl
  · cases written

theorem writeFile_error {error : IoError}
    (failed : disk.writeFile path contents = (next, .error error)) :
    ∃ leaves, next.files = Function.update disk.files path leaves := by
  unfold Disk.writeFile at failed
  split at failed
  · cases failed
  · cases failed
    exact ⟨_, rfl⟩

theorem createDirectory_files (disk : Disk) : disk.createDirectory.1.files = disk.files := by
  unfold Disk.createDirectory
  split <;> rfl

theorem writeFileWithMissingParentRetry_ok
    (written : writeFileWithMissingParentRetry disk path contents = (next, .ok ())) :
    next.files = Function.update disk.files path (some contents) := by
  unfold writeFileWithMissingParentRetry at written
  split at written
  next first =>
    cases written
    exact writeFile_ok first
  next failedDisk error first =>
    obtain ⟨leaves, left⟩ := writeFile_error first
    split at written
    · dsimp only at written
      have created : ∀ created : Disk × Except IoError Unit,
          created = (if path.parent.isSome then failedDisk.createDirectory
            else (failedDisk, .ok ())) →
          created.1.files = failedDisk.files := by
        rintro created rfl
        split
        · exact createDirectory_files failedDisk
        · rfl
      split at written
      · cases written
      next createdDisk same =>
        have kept := created _ same.symm
        split at written
        next second =>
          cases written
          rw [writeFile_ok second, kept, left, Function.update_idem]
        · cases written
    · cases written

variable {chunks : List UpdateFileChunk} {progress : Progress} {old new : String}

/-! ## What a round can do -/

section Rounds

variable (base : PathBase)

/-- The files after a round that succeeds, and the change it records. -/
inductive Committed (files : Files) : Hunk → Files → AppliedPatchChange → Prop where
  | added (path contents : String) : Committed files (.addFile path contents)
        (Function.update files (base.resolve path) (some contents))
        ⟨base.resolve path, .add contents (files (base.resolve path))⟩
  | deleted (path content : String) (present : files (base.resolve path) = some content) :
      Committed files (.deleteFile path) (Function.update files (base.resolve path) none)
        ⟨base.resolve path, .delete content⟩
  | updated (path : String) (chunks : List UpdateFileChunk) (old new : String)
      (present : files (base.resolve path) = some old)
      (derived : deriveNewContents old (base.resolve path).display chunks = .ok new) :
      Committed files (.updateFile path none chunks)
        (Function.update files (base.resolve path) (some new))
        ⟨base.resolve path, .update none old none new⟩
  | moved (path dest : String) (chunks : List UpdateFileChunk) (old new : String)
      (present : files (base.resolve path) = some old)
      (derived : deriveNewContents old (base.resolve path).display chunks = .ok new) :
      Committed files (.updateFile path (some dest) chunks) (Function.update
          (Function.update files (base.resolve dest) (some new))
          (base.resolve path) none)
        ⟨base.resolve path, .update (some (base.resolve dest)) old (files (base.resolve dest)) new⟩

/--
A move that fails after it has written its destination: its source is there
and the chunks apply to it.
-/
inductive HalfMoved (files : Files) : Hunk → AbsolutePathBuf → String → Prop where
  | written (path dest : String) (chunks : List UpdateFileChunk) (old new : String)
      (present : files (base.resolve path) = some old)
      (derived : deriveNewContents old (base.resolve path).display chunks = .ok new) :
      HalfMoved files (.updateFile path (some dest) chunks) (base.resolve dest) new

/-- The file that a round writes if its writes succeed. -/
def writeTarget (files : Files) : Hunk → Option AbsolutePathBuf
  | .addFile path _ => some (base.resolve path)
  | .deleteFile _ => none
  | .updateFile path movePath chunks =>
    match files (base.resolve path) with
    | none => none
    | some old =>
      match deriveNewContents old (base.resolve path).display chunks with
      | .error _ => none
      | .ok _ => some (base.resolve (movePath.getD path))

/-- All that one round does to the files and the delta. -/
inductive RoundCase (files : Files) (delta : AppliedPatchDelta)
    (hunk : Hunk) :
    Files → AppliedPatchDelta → Except AnyhowError Unit → Prop where
  | committed {next : Files} {change : AppliedPatchChange}
      (step : Committed base files hunk next change) :
      RoundCase files delta hunk next ⟨delta.changes ++ [change], delta.exact⟩ (.ok ())
  | refused (idle : writeTarget base files hunk = none) (error : AnyhowError) :
      RoundCase files delta hunk files delta (.error error)
  | halfMoved {dest : AbsolutePathBuf} {new : String}
      (half : HalfMoved base files hunk dest new) (error : AnyhowError) :
      RoundCase files delta hunk (Function.update files dest (some new))
        ⟨delta.changes ++ [⟨dest, .add new (files dest)⟩], delta.exact⟩
        (.error error)
  | inexact {next : Files} {changes : List AppliedPatchChange} (error : AnyhowError) :
      RoundCase files delta hunk next ⟨changes, false⟩ (.error error)

def Round.Is (files : Files) (delta : AppliedPatchDelta) (hunk : Hunk) (round : Round) : Prop :=
  RoundCase base files delta hunk round.1.disk.files round.1.delta round.2

theorem applyAddFile_case (path contents : String) (progress : Progress) :
    Round.Is base progress.disk.files progress.delta (.addFile path contents)
      (applyAddFile base (.addFile path contents) contents progress) := by
  unfold applyAddFile
  simp only [readOptionalFileTextForDelta_eq, andExact_true]
  split
  next disk error failed =>
    simp only [Round.Is, andExact, withDisk, Bool.and_false]
    exact .inexact error
  next disk written =>
    have files := writeFileWithMissingParentRetry_ok written
    simp only [Round.Is, withDisk, push, noteAdded, files]
    exact .committed (.added path contents)

theorem applyDeleteFile_case (path : String) (progress : Progress) :
    Round.Is base progress.disk.files progress.delta (.deleteFile path)
      (applyDeleteFile base (.deleteFile path) progress) := by
  have source : base.resolvePath (.deleteFile path) = base.resolve path := rfl
  unfold applyDeleteFile
  simp only [noteExistingPathDeltaSupport_eq, andExact_true, source]
  cases present : progress.disk.files (base.resolve path) with
  | none =>
    simp only [Disk.readFileText, ensureNotDirectory, Disk.getMetadata,
      present, Except.toOption, Option.isSome_none, andExact,
      Bool.and_false, Round.Is]
    exact .inexact _
  | some content =>
    simp only [Disk.readFileText, present, Except.toOption, Option.isSome_some, andExact_true,
      ensureNotDirectory_of_some present, Disk.remove]
    cases progress.disk.outcome with
    | succeeds =>
      simp only [Round.Is, withDisk, push, noteDeleted, Disk.files_setFile, Disk.files_advance]
      exact .committed (.deleted path content present)
    | fails error leaves =>
      simp only [removeFailureWasSideEffectFree, Disk.readFileText,
        Disk.files_advance, present, beq_self_eq_true, andExact_true,
        Round.Is, withDisk]
      exact .refused rfl _

variable {path : String} (present : progress.disk.files (base.resolve path) = some old)
  (derived : deriveNewContents old (base.resolve path).display chunks = .ok new)
include present derived

theorem applyMove_case (dest : String) :
    Round.Is base progress.disk.files progress.delta (.updateFile path (some dest) chunks)
      (applyMove base (.updateFile path (some dest) chunks)
        (base.resolve dest) ⟨old, new⟩ progress) := by
  have source : base.resolvePath (.updateFile path (some dest) chunks) = base.resolve path := rfl
  unfold applyMove
  simp only [readOptionalFileTextForDelta_eq, andExact_true, source]
  split
  next disk error failed =>
    simp only [Round.Is, andExact, withDisk, Bool.and_false]
    exact .inexact error
  next disk written =>
    have files := writeFileWithMissingParentRetry_ok written
    -- The source is still there: the write to the destination removes
    -- nothing, even where both are one path.
    obtain ⟨text, there⟩ : ∃ text, disk.files (base.resolve path) = some text := by
      rw [files, Function.update_apply]
      split
      · exact ⟨new, rfl⟩
      · exact ⟨old, present⟩
    simp only [ensureNotDirectory_of_some there, Disk.remove, there]
    cases disk.outcome with
    | succeeds =>
      simp only [Round.Is, withDisk, push, noteModified, Disk.files_setFile, Disk.files_advance,
        files]
      exact .committed (.moved path dest chunks old new present derived)
    | fails error leaves =>
      simp only [removeFailureWasSideEffectFree, Disk.readFileText, Disk.files_advance, there]
      by_cases same : text = old
      · simp only [same, beq_self_eq_true, andExact_true, Round.Is,
          withDisk, push, Disk.files_advance, files]
        exact .halfMoved (.written path dest chunks old new present derived) _
      · simp only [beq_eq_false_iff_ne.mpr same, Round.Is, andExact, withDisk, push, Bool.and_false]
        exact .inexact _

theorem applyUpdateInPlace_case :
    Round.Is base progress.disk.files progress.delta (.updateFile path none chunks)
      (applyUpdateInPlace base (.updateFile path none chunks) ⟨old, new⟩ progress) := by
  unfold applyUpdateInPlace
  dsimp only
  split
  next disk error failed =>
    simp only [Round.Is, andExact, withDisk, Bool.and_false]
    exact .inexact _
  next disk written =>
    have files := writeFile_ok written
    simp only [Round.Is, withDisk, push, noteModified, files]
    exact .committed (.updated path chunks old new present derived)

omit present derived

theorem applyHunk_case (hunk : Hunk) (progress : Progress) :
    Round.Is base progress.disk.files progress.delta hunk (applyHunk base hunk progress) := by
  cases hunk with
  | addFile path contents => exact applyAddFile_case base path contents _
  | deleteFile path => exact applyDeleteFile_case base path progress
  | updateFile path movePath chunks =>
    have source : base.resolvePath (.updateFile path movePath chunks) = base.resolve path := rfl
    simp only [applyHunk, noteExistingPathDeltaSupport_eq, andExact_true,
      source, deriveNewContentsFromChunks, Disk.readFileText]
    cases present : progress.disk.files (base.resolve path) with
    | none => exact .refused (by simp only [writeTarget, present]) _
    | some old =>
      dsimp only
      cases derived : deriveNewContents old (base.resolve path).display chunks with
      | error message => exact .refused (by simp only [writeTarget, present, derived]) _
      | ok new =>
        cases movePath with
        | some dest => exact applyMove_case base present derived dest
        | none => exact applyUpdateInPlace_case base present derived

/-! ## Whole runs -/

theorem applyHunks_eq (hunks : List Hunk) (console : Console) (disk : Disk) :
    (applyHunks base hunks console disk).disk = (applyEach base hunks (.start disk)).1.disk ∧
      (applyHunks base hunks console disk).delta =
        (applyEach base hunks (.start disk)).1.delta := by
  have loop : (applyHunksToFiles base hunks (.start disk)).1 =
      (applyEach base hunks (.start disk)).1 := by
    cases hunks <;> rfl
  unfold applyHunks
  rw [← loop]
  rcases applyHunksToFiles base hunks (.start disk) with
    ⟨progress, error | ⟨⟨⟩⟩⟩
  · cases console.stderr <;> exact ⟨rfl, rfl⟩
  · cases console.stdout <;> exact ⟨rfl, rfl⟩

theorem applyHunks_ok {hunks : List Hunk} {console : Console} {disk : Disk}
    {delta : AppliedPatchDelta}
    (applied : (applyHunks base hunks console disk).result = .ok delta) :
    (applyEach base hunks (.start disk)).2 = .ok () := by
  unfold applyHunks applyHunksToFiles at applied
  cases hunks with
  | nil => rfl
  | cons hunk rest =>
    simp only [List.isEmpty_cons, Bool.false_eq_true, if_false] at applied
    revert applied
    rcases applyEach base (hunk :: rest) (.start disk) with
      ⟨progress, error | ⟨⟨⟩⟩⟩
    · cases console.stderr <;> exact nofun
    · exact fun _ => rfl

end Rounds

/-! ## Files outside the patch -/

section Frame

variable (base : PathBase) {path target : AbsolutePathBuf} {disk next : Disk} {contents : String}

/-- The paths that a hunk names. -/
def namedPaths (hunk : Hunk) : List AbsolutePathBuf :=
  base.resolvePath hunk :: (base.moveDestination hunk).toList

theorem writeFile_frame {result : Except IoError Unit} (outside : path ≠ target)
    (written : disk.writeFile target contents = (next, result)) :
    next.files path = disk.files path := by
  unfold Disk.writeFile at written
  split at written <;> cases written <;> exact Function.update_of_ne outside _ _

theorem remove_frame {result : Except IoError Unit} (outside : path ≠ target)
    (removed : disk.remove target = (next, result)) : next.files path = disk.files path := by
  unfold Disk.remove at removed
  split at removed
  · cases removed
    rfl
  · split at removed <;> cases removed
    · exact Function.update_of_ne outside _ _
    · rfl

theorem writeFileWithMissingParentRetry_frame {result : Except AnyhowError Unit}
    (outside : path ≠ target)
    (written : writeFileWithMissingParentRetry disk target contents = (next, result)) :
    next.files path = disk.files path := by
  unfold writeFileWithMissingParentRetry at written
  split at written
  next once =>
    cases written
    exact writeFile_frame outside once
  next failed _ once =>
    have kept := writeFile_frame outside once
    have made : (if target.parent.isSome then failed.createDirectory
        else (failed, .ok ())).1.files path = disk.files path := by
      split
      · exact (congrFun (createDirectory_files failed) path).trans kept
      · exact kept
    split at written
    · dsimp only at written
      split at written
      next parent =>
        cases written
        rwa [parent] at made
      next parent =>
        rw [parent] at made
        split at written <;> cases written <;>
          exact (writeFile_frame outside ‹_›).trans made
    · cases written
      exact kept

variable {hunk : Hunk} (progress : Progress)

theorem applyMove_frame {dest : AbsolutePathBuf} (patch : AppliedPatch)
    (source : path ≠ base.resolvePath hunk) (target : path ≠ dest) :
    (applyMove base hunk dest patch progress).1.disk.files path = progress.disk.files path := by
  unfold applyMove
  dsimp only
  split
  next written => exact writeFileWithMissingParentRetry_frame target written
  next written =>
    have kept := writeFileWithMissingParentRetry_frame target written
    split
    · exact kept
    · split <;> exact (remove_frame source ‹_›).trans kept

theorem applyHunk_frame (outside : path ∉ namedPaths base hunk) :
    (applyHunk base hunk progress).1.disk.files path = progress.disk.files path := by
  obtain ⟨source, target⟩ := not_or.mp (mt List.mem_cons.mpr outside)
  cases hunk with
  | addFile =>
    unfold applyHunk applyAddFile
    dsimp only
    split <;> exact writeFileWithMissingParentRetry_frame source ‹_›
  | deleteFile =>
    unfold applyHunk applyDeleteFile
    dsimp only
    split
    · rfl
    · split
      · exact remove_frame source ‹_›
      · split <;> exact remove_frame source ‹_›
  | updateFile _ movePath =>
    unfold applyHunk
    dsimp only
    split
    · rfl
    · cases movePath with
      | some => exact applyMove_frame base _ _ source (mt List.mem_singleton.mpr target)
      | none =>
        unfold applyUpdateInPlace
        dsimp only
        split <;> exact writeFile_frame source ‹_›

theorem applyEach_frame (hunks : List Hunk) (progress : Progress)
    (outside : ∀ hunk ∈ hunks, path ∉ namedPaths base hunk) :
    (applyEach base hunks progress).1.disk.files path = progress.disk.files path := by
  induction hunks generalizing progress with
  | nil => rfl
  | cons hunk rest ih =>
    have kept := applyHunk_frame base progress (outside hunk List.mem_cons_self)
    unfold applyEach
    split
    next failed => rwa [failed] at kept
    next applied =>
      rw [applied] at kept
      exact (ih _ fun hunk mem => outside hunk (.tail _ mem)).trans kept

/-- A patch leaves every file that no hunk of it names as it was, also if it stops at an error. -/
theorem only_named_files_change (hunks : List Hunk) (console : Console) (disk : Disk)
    (outside : ∀ hunk ∈ hunks, path ∉ namedPaths base hunk) :
    (applyHunks base hunks console disk).disk.files path = disk.files path := by
  rw [(applyHunks_eq base hunks console disk).1]
  exact applyEach_frame base hunks (.start disk) outside

/-- A file beside one that is deleted. -/
theorem only_named_files_change_delete : let base : PathBase := ⟨none, ⟨["work"]⟩⟩
    let disk : Disk := ⟨fun _ => some "kept", []⟩
    (applyHunks base [.deleteFile "a"] ⟨none, none⟩ disk).disk.files ⟨["work", "b"]⟩ =
      some "kept" :=
  only_named_files_change _ _ _ _ (by decide)

end Frame

end Codex.ApplyPatch.Application
