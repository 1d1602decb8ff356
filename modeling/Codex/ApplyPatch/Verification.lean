import Codex.ApplyPatch.Application
import Codex.Library.KeyedSteps

/-!
# What verification shows

`verify_apply_patch_args` of `apply-patch/src/invocation.rs` says, before a
patch is applied, what it will do: every file is read as it is before the
patch, and the change of each path goes into a map, where a later hunk with the
same path replaces it.  The hunks are applied one after another, each on what
those before it have left.
-/

namespace Codex.ApplyPatch.Verification

open Application FileSystem Patch Replacements Library.KeyedSteps Option

/-! ## Verification -/

inductive ApplyPatchFileChange where
  | add (content : String)
  | delete (content : String)
  | update (unifiedDiff : String) (movePath : Option AbsolutePathBuf) (newContent : String)
deriving DecidableEq

/-- `HashMap<PathBuf, ApplyPatchFileChange>`. -/
abbrev Changes := AbsolutePathBuf → Option ApplyPatchFileChange

structure ApplyPatchAction where
  changes : Changes
  patch : String
  cwd : AbsolutePathBuf

/-- The outcomes of `MaybeApplyPatchVerified` for arguments that parse. -/
inductive MaybeApplyPatchVerified where
  | body (action : ApplyPatchAction)
  | correctnessError (error : ApplyPatchError)

section Verify

-- `TextDiff::unified_diff` on the old and the new text.
variable (unifiedDiff : String → String → String) (base : PathBase) (disk : Disk)

/-- The change of one hunk, read off the disk as it is. -/
def verifyHunk (hunk : Hunk) : Except ApplyPatchError ApplyPatchFileChange :=
  let path := base.resolvePath hunk
  match hunk with
  | .addFile _ contents => .ok (.add contents)
  | .deleteFile _ =>
    match disk.readFileText path with
    | .ok content => .ok (.delete content)
    | .error error => .error (.ioError ("Failed to read " ++ path.display) error)
  | .updateFile _ movePath chunks =>
    match deriveNewContentsFromChunks disk path chunks with
    | .ok patch =>
      .ok (.update (unifiedDiff patch.originalContents patch.newContents)
        (movePath.map base.resolve) patch.newContents)
    | .error error => .error error

def verifyHunks : List Hunk → Changes → Except ApplyPatchError Changes
  | [], changes => .ok changes
  | hunk :: rest, changes =>
    match verifyHunk unifiedDiff base disk hunk with
    | .ok change => verifyHunks rest (Function.update changes (base.resolvePath hunk) (some change))
    | .error error => .error error

end Verify

def verifyApplyPatchArgs (unifiedDiff : String → String → String)
    (args : ApplyPatchArgs) (base : PathBase) (disk : Disk) : MaybeApplyPatchVerified :=
  let effectiveCwd :=
    match args.workdir with
    | some dir => base.resolve dir
    | none => base.cwd
  match verifyHunks unifiedDiff { base with cwd := effectiveCwd } disk
      args.hunks (fun _ => none) with
  | .ok changes => .body ⟨changes, args.patch, effectiveCwd⟩
  | .error error => .correctnessError error

/-! ## What the changes say -/

/-- The files after are the files before, changed as the map says. -/
structure DescribedBy (changes : Changes) (before after : Files) : Prop where
  added : ∀ path content, changes path = some (.add content) → after path = some content
  deleted : ∀ path content, changes path = some (.delete content) → after path = none
  updated : ∀ path diff content, changes path = some (.update diff none content) →
      after path = some content
  moved : ∀ path diff dest content, changes path = some (.update diff (some dest) content) →
      after path = none ∧ after dest = some content
  others : ∀ path, changes path = none → (∀ source diff content,
      changes source ≠ some (.update diff (some path) content)) →
    after path = before path

variable {change : ApplyPatchFileChange} {path : AbsolutePathBuf} {hunks : List Hunk} {hunk : Hunk}

/-! ## Hunks as steps -/

section Steps

variable (base : PathBase)

/-- What the chunks make of a file, if it is there and they apply. -/
def derived (files : Files) (path : String) (chunks : List UpdateFileChunk) : Option String :=
  (files (base.resolve path)).bind fun old =>
    (deriveNewContents old (base.resolve path).display chunks).toOption

/-- The step of a hunk, where `start` was verified and `files` are there. -/
def stepOf (start files : Files) : Hunk → Step AbsolutePathBuf String
  | .addFile path contents => .set (base.resolve path) (some contents) (some contents)
  | .deleteFile path => .set (base.resolve path) none none
  | .updateFile path none chunks =>
    .set (base.resolve path) (derived base start path chunks) (derived base files path chunks)
  | .updateFile path (some dest) chunks =>
    .move (base.resolve path) (base.resolve dest) ((derived base start path chunks).getD "")
      ((derived base files path chunks).getD "")

/-- The steps of the hunks, each on the files that it finds. -/
def stepsOf (start : Files) : Files → List Hunk → List (Step AbsolutePathBuf String)
  | _, [] => []
  | files, hunk :: rest =>
    stepOf base start files hunk :: stepsOf start ((stepOf base start files hunk).run files) rest

variable (start : Files) {changes : Changes} {steps : List (Step AbsolutePathBuf String)}

theorem key_stepOf (files : Files) (hunk : Hunk) :
    (stepOf base start files hunk).key = base.resolvePath hunk := by
  rcases hunk with _ | _ | ⟨_, _ | _, _⟩ <;> rfl

theorem derived_eq {files : Files} {path old new : String} {chunks : List UpdateFileChunk}
    (present : files (base.resolve path) = some old)
    (derives : deriveNewContents old (base.resolve path).display chunks = .ok new) :
    derived base files path chunks = some new := by
  simp only [derived, present, bind_some, derives, Except.toOption]

/-- A round that succeeds is the step of its hunk. -/
theorem committed_eq_run {files next : Files} {change : AppliedPatchChange}
    (step : Committed base files hunk next change) :
    next = (stepOf base start files hunk).run files := by
  cases step with
  | added | deleted => rfl
  | updated path chunks old new present derives =>
    simp only [stepOf, Step.run, derived_eq base present derives]
  | moved path dest chunks old new present derives =>
    simp only [stepOf, Step.run, derived_eq base present derives, getD_some]

theorem applyEach_eq_runAll (progress : Progress)
    (succeeds : (applyEach base hunks progress).2 = .ok ()) :
    (applyEach base hunks progress).1.disk.files =
      runAll (stepsOf base start progress.disk.files hunks)
        progress.disk.files := by
  induction hunks generalizing progress with
  | nil => rfl
  | cons hunk rest ih =>
    have round := applyHunk_case base hunk progress
    unfold applyEach at succeeds ⊢
    generalize applyHunk base hunk progress = result at round succeeds ⊢
    obtain ⟨next, error | ⟨⟨⟩⟩⟩ := result
    · cases succeeds
    · simp only at succeeds ⊢
      have files : next.disk.files = (stepOf base start progress.disk.files hunk).run
            progress.disk.files := by
        unfold Round.Is at round
        simp only at round
        generalize next.disk.files = nextFiles at round ⊢
        generalize next.delta = nextDelta at round
        cases round with
        | committed step => exact committed_eq_run base start step
      rw [ih next succeeds, files]
      rfl

/-! ## The map of changes -/

/-- A change says what the step of its hunk was shown to do. -/
inductive Tells : ApplyPatchFileChange → Step AbsolutePathBuf String → Prop
  | add (path : AbsolutePathBuf) (content : String) (done : Option String) :
      Tells (.add content) (.set path (some content) done)
  | delete (path : AbsolutePathBuf) (content : String) (done : Option String) :
      Tells (.delete content) (.set path none done)
  | update (path : AbsolutePathBuf) (diff content : String) (done : Option String) :
      Tells (.update diff none content) (.set path (some content) done)
  | move (path dest : AbsolutePathBuf) (diff content done : String) :
      Tells (.update diff (some dest) content) (.move path dest content done)

variable (unifiedDiff : String → String → String)

theorem verifyHunk_tells {disk : Disk}
    (verified : verifyHunk unifiedDiff base disk hunk = .ok change) (files : Files) :
    Tells change (stepOf base disk.files files hunk) := by
  cases hunk with
  | addFile path contents =>
    cases verified
    exact .add _ contents _
  | deleteFile path =>
    simp only [verifyHunk] at verified
    split at verified
    · cases verified
      exact .delete _ _ _
    · cases verified
  | updateFile path movePath chunks =>
    have source : base.resolvePath (.updateFile path movePath chunks) = base.resolve path := rfl
    simp only [verifyHunk, source, deriveNewContentsFromChunks, Disk.readFileText] at verified
    cases present : disk.files (base.resolve path) with
    | none => simp [present] at verified
    | some old =>
      simp only [present] at verified
      cases derives : deriveNewContents old (base.resolve path).display chunks with
      | error msg => simp [derives] at verified
      | ok new =>
        simp only [derives] at verified
        cases verified
        have shown := derived_eq base present derives
        cases movePath with
        | none =>
          simp only [stepOf, shown]
          exact .update _ _ new _
        | some dest =>
          simp only [stepOf, shown, getD_some]
          exact .move _ _ _ new _

/-- The map has, under each path, what its last step was shown to do. -/
def Corresponds (changes : Changes) (steps : List (Step AbsolutePathBuf String)) : Prop := ∀ path,
    match lastFor path steps with
    | some step => ∃ change, changes path = some change ∧ Tells change step
    | none => changes path = none

theorem verifyHunks_spec {disk : Disk} (files : Files) (earlier changes : Changes)
    (verified : verifyHunks unifiedDiff base disk hunks earlier =
      .ok changes) (path : AbsolutePathBuf) :
    match lastFor path (stepsOf base disk.files files hunks) with
    | some step => ∃ change, changes path = some change ∧ Tells change step
    | none => changes path = earlier path := by
  induction hunks generalizing files earlier with
  | nil =>
    cases verified
    rfl
  | cons hunk rest ih =>
    unfold verifyHunks at verified
    cases outcome : verifyHunk unifiedDiff base disk hunk with
    | error error => simp [outcome] at verified
    | ok change =>
      simp only [outcome] at verified
      have later := ih ((stepOf base disk.files files hunk).run files) _ verified
      rw [stepsOf, lastFor, key_stepOf]
      cases found : lastFor path (stepsOf base disk.files
          ((stepOf base disk.files files hunk).run files) rest) with
      | some step =>
        simp only [found] at later ⊢
        exact later
      | none =>
        simp only [found] at later ⊢
        by_cases same : base.resolvePath hunk = path
        · rw [if_pos same]
          rw [same, Function.update_self] at later
          exact ⟨change, later, verifyHunk_tells base unifiedDiff outcome files⟩
        · rw [if_neg same]
          rwa [Function.update_of_ne (Ne.symm same)] at later

theorem Corresponds.change_of (corresponds : Corresponds changes steps)
    {step : Step AbsolutePathBuf String} (found : lastFor path steps = some step) :
    ∃ change, changes path = some change ∧ Tells change step := by
  have entry := corresponds path
  rwa [found] at entry

theorem Corresponds.step_of (corresponds : Corresponds changes steps)
    (entered : changes path = some change) :
    ∃ step, lastFor path steps = some step ∧ step.key = path ∧ Tells change step := by
  have entry := corresponds path
  cases found : lastFor path steps with
  | none =>
    rw [found] at entry
    cases entry.symm.trans entered
  | some step =>
    rw [found] at entry
    obtain ⟨other, same, tells⟩ := entry
    cases same.symm.trans entered
    exact ⟨step, rfl, (lastFor_key found).2, tells⟩

theorem Corresponds.describedBy_iff
    (corresponds : Corresponds changes steps) (before after : Files) :
    DescribedBy changes before after ↔ Describes steps before after := by
  constructor
  · intro described
    constructor
    · intro key step found
      obtain ⟨change, entered, tells⟩ := corresponds.change_of found
      have isKey := (lastFor_key found).2
      cases tells with
      | add path content done =>
        cases isKey
        exact described.added _ _ entered
      | delete path content done =>
        cases isKey
        exact described.deleted _ _ entered
      | update path diff content done =>
        cases isKey
        exact described.updated _ _ _ entered
      | move path dest diff content done =>
        cases isKey
        exact described.moved _ _ _ _ entered
    · intro place unseen
      refine described.others place ?_ ?_
      · by_contra entered
        obtain ⟨change, entered⟩ := ne_none_iff_exists'.mp entered
        obtain ⟨step, found, isKey, -⟩ := corresponds.step_of entered
        exact unseen place step found (.inl isKey)
      · intro source diff content entered
        obtain ⟨step, found, -, tells⟩ := corresponds.step_of entered
        cases tells with
        | move path dest diff content done => exact unseen source _ found (.inr rfl)
  · intro describes
    constructor
    · intro path content entered
      obtain ⟨step, found, isKey, tells⟩ := corresponds.step_of entered
      cases tells with
      | add =>
        cases isKey
        exact describes.shows _ _ found
    · intro path content entered
      obtain ⟨step, found, isKey, tells⟩ := corresponds.step_of entered
      cases tells with
      | delete =>
        cases isKey
        exact describes.shows _ _ found
    · intro path diff content entered
      obtain ⟨step, found, isKey, tells⟩ := corresponds.step_of entered
      cases tells with
      | update =>
        cases isKey
        exact describes.shows _ _ found
    · intro path diff dest content entered
      obtain ⟨step, found, isKey, tells⟩ := corresponds.step_of entered
      cases tells with
      | move =>
        cases isKey
        exact describes.shows _ _ found
    · intro path missing noMove
      refine describes.others path ?_
      rintro key step found (isKey | isDest)
      · cases (lastFor_key found).2.symm.trans isKey
        obtain ⟨change, entered, -⟩ := corresponds.change_of found
        cases missing.symm.trans entered
      · obtain ⟨change, entered, tells⟩ := corresponds.change_of found
        cases tells with
        | move source dest diff content done =>
          cases isDest
          exact noMove _ _ _ entered
        | add | delete | update => cases isDest

end Steps

/--
Verification and application of one patch.  If the hunks keep out of each
other's way, application does what the changes show.  Unless the texts of
different hunks happen to coincide, it does so only then.
-/
theorem verified_changes_applied (unifiedDiff : String → String → String)
    (args : ApplyPatchArgs) (start : PathBase) (disk : Disk)
    (console : Console) (action : ApplyPatchAction)
    (delta : AppliedPatchDelta)
    (verified : verifyApplyPatchArgs unifiedDiff args start disk = .body action)
    (applied : (applyHunks ⟨start.home, action.cwd⟩ args.hunks console disk).result = .ok delta) :
    let base : PathBase := ⟨start.home, action.cwd⟩
    let steps := stepsOf base disk.files disk.files args.hunks
    let described := DescribedBy action.changes disk.files
      (applyHunks base args.hunks console disk).disk.files
    (Orderly steps → described) ∧ (Telling steps disk.files → described → Orderly steps) := by
  intro base steps described
  have corresponds : Corresponds action.changes steps := by
    unfold verifyApplyPatchArgs at verified
    simp only at verified
    split at verified
    next changes outcome =>
      cases verified
      exact verifyHunks_spec base unifiedDiff disk.files _ _ outcome
    · cases verified
  have succeeds : (applyEach base args.hunks (.start disk)).2 = .ok () := applyHunks_ok base applied
  have final : (applyHunks base args.hunks console disk).disk.files = runAll steps disk.files := by
    rw [(applyHunks_eq base args.hunks console disk).1]
    exact applyEach_eq_runAll base disk.files (.start disk) succeeds
  have same : described ↔ Describes steps disk.files (runAll steps disk.files) := by
    rw [← final]
    exact corresponds.describedBy_iff _ _
  rw [same]
  refine ⟨fun orderly => orderly.describes disk.files, ?_⟩
  intro telling describes
  exact telling.orderly describes

/-- The texts of `unified_diff` for the updates below. -/
def sampleDiff (old new : String) : String :=
  if old = "x\n" ∧ new = "y\n" then "@@ -1 +1 @@\n-x\n+y\n"
  else if old = "x\nw\n" ∧ new = "y\nw\n" then "@@ -1,2 +1,2 @@\n-x\n+y\n w\n"
  else if old = "x\nw\n" ∧ new = "x\nv\n" then "@@ -1,2 +1,2 @@\n x\n-w\n+v\n"
  else ""

/-- Two files, `/w/a` with the given text and `/w/d`. -/
def sampleDisk (text : String) : Disk := ⟨fun path =>
    if path = ⟨["w", "a"]⟩ then some text
    else if path = ⟨["w", "d"]⟩ then some "old\n"
    else none, []⟩

def sampleStart : PathBase := ⟨none, ⟨[]⟩⟩

/-- A move, an addition and a delete, from the directory `/w`. -/
def sampleArgs : ApplyPatchArgs := ⟨[.updateFile "a" (some "b") [⟨none, ["x"], ["y"], false⟩],
    .addFile "c" "new\n", .deleteFile "d"], "", some "w", none⟩

theorem verified_changes_applied_sample : ∃ action delta,
      verifyApplyPatchArgs sampleDiff sampleArgs sampleStart (sampleDisk "x\n") = .body action ∧
      (applyHunks ⟨none, action.cwd⟩ sampleArgs.hunks ⟨none, none⟩
        (sampleDisk "x\n")).result = .ok delta ∧
      DescribedBy action.changes (sampleDisk "x\n").files
        (applyHunks ⟨none, action.cwd⟩ sampleArgs.hunks ⟨none, none⟩
          (sampleDisk "x\n")).disk.files := by
  refine ⟨_, _, rfl, rfl, ?_⟩
  refine (verified_changes_applied sampleDiff sampleArgs sampleStart
    (sampleDisk "x\n") ⟨none, none⟩ _ _ rfl rfl).1 ?_
  decide +kernel

/-- Two updates of one file: the second one is shown without the first. -/
def twiceArgs : ApplyPatchArgs := ⟨[.updateFile "a" none [⟨none, ["x"], ["y"], false⟩],
    .updateFile "a" none [⟨none, ["w"], ["v"], false⟩]], "", some "w", none⟩

theorem second_update_shown_alone : ∃ action delta,
      verifyApplyPatchArgs sampleDiff twiceArgs sampleStart (sampleDisk "x\nw\n") = .body action ∧
      (applyHunks ⟨none, action.cwd⟩ twiceArgs.hunks ⟨none, none⟩
        (sampleDisk "x\nw\n")).result = .ok delta ∧
      ¬ DescribedBy action.changes (sampleDisk "x\nw\n").files
        (applyHunks ⟨none, action.cwd⟩ twiceArgs.hunks ⟨none, none⟩
          (sampleDisk "x\nw\n")).disk.files := by
  refine ⟨_, _, rfl, rfl, ?_⟩
  intro described
  have shown := described.updated ⟨["w", "a"]⟩
    "@@ -1,2 +1,2 @@\n x\n-w\n+v\n" "x\nv\n" (by decide +kernel)
  revert shown
  decide +kernel

end Codex.ApplyPatch.Verification
