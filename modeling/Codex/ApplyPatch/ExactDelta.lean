import Codex.ApplyPatch.Application

/-!
# Exact deltas

An exact delta should say what has happened to the files: played again on the
files as they were it gives the files as they are, and undone it gives back the
files as they were.  Changes are played the way `TurnDiffTracker` in
`core/src/turn_diff_tracker.rs` reads them: a move removes its source and then
sets its destination.
-/

namespace Codex.ApplyPatch.ExactDelta

open Application FileSystem Patch Replacements List Function

/-! ## Playing changes again and undoing them -/

/-- `TurnDiffTracker::apply_change`, on the files. -/
def replayChange (files : Files) (applied : AppliedPatchChange) : Files :=
  match applied.change with
  | .add content _ => Function.update files applied.path (some content)
  | .delete _ => Function.update files applied.path none
  | .update none _ _ newContent => Function.update files applied.path (some newContent)
  | .update (some dest) _ _ newContent =>
    Function.update (Function.update files applied.path none) dest (some newContent)

def undoChange (applied : AppliedPatchChange) (files : Files) : Files :=
  match applied.change with
  | .add _ overwrittenContent => Function.update files applied.path overwrittenContent
  | .delete content => Function.update files applied.path (some content)
  | .update none oldContent _ _ => Function.update files applied.path (some oldContent)
  | .update (some dest) oldContent overwrittenMoveContent _ =>
    Function.update (Function.update files dest overwrittenMoveContent)
      applied.path (some oldContent)

variable (changes : List AppliedPatchChange) (files : Files)

def replay : Files := changes.foldl replayChange files

/-- All changes undone, the last one first. -/
def undo : Files := changes.foldr undoChange files

variable {change : AppliedPatchChange} {path : AbsolutePathBuf} {old new : String}

section Runs

variable (base : PathBase)

/-! ## Files lost by a move onto themselves -/

/-- A move whose destination is its source. -/
def movesOntoItself (hunk : Hunk) : Bool :=
  base.moveDestination hunk == some (base.resolvePath hunk)

/--
The files that the rounds of a run move onto themselves and do not write again
afterwards, where `lost` are those of the rounds before.
-/
def lostFiles : List Hunk → Progress → List AbsolutePathBuf → List AbsolutePathBuf
  | [], _, lost => lost
  | hunk :: rest, progress, lost =>
    let kept := lost.filter fun path => writeTarget base progress.disk.files hunk ≠ some path
    match applyHunk base hunk progress with
    | (_, .error _) => kept
    | (next, .ok ()) =>
      lostFiles rest next (if movesOntoItself base hunk then base.resolvePath hunk :: kept
         else kept)

theorem lostFiles_eq_nil (hunks : List Hunk) (progress : Progress)
    (apart : ∀ hunk ∈ hunks, movesOntoItself base hunk = false) :
    lostFiles base hunks progress [] = [] := by
  induction hunks generalizing progress with
  | nil => rfl
  | cons hunk rest ih =>
    rw [forall_mem_cons] at apart
    simp only [lostFiles, filter_nil, apart.1]
    split
    · rfl
    · exact ih _ apart.2

/-! ## One round -/

/--
The delta undone gives the files at the start; played again it gives the files
now, but for the lost ones, which are absent and which it has present.
-/
structure Follows (start files : Files) (changes : List AppliedPatchChange)
    (lost : List AbsolutePathBuf) : Prop where
  undone : undo changes files = start
  absent : ∀ path ∈ lost, files path = none
  claimed : ∀ path ∈ lost, replay changes start path ≠ none
  agrees : ∀ path, path ∉ lost → replay changes start path = files path

theorem Follows.replay_eq_iff {start files : Files}
    {changes : List AppliedPatchChange} {lost : List AbsolutePathBuf}
    (follows : Follows start files changes lost) : replay changes start = files ↔ lost = [] := by
  constructor
  · intro same
    by_contra nonempty
    obtain ⟨path, mem⟩ := exists_mem_of_ne_nil lost nonempty
    exact follows.claimed path mem (same ▸ follows.absent path mem)
  · rintro rfl
    funext path
    exact follows.agrees path not_mem_nil

variable {start files next : Files} {changes : List AppliedPatchChange}
  {lost : List AbsolutePathBuf} {hunk : Hunk} (follows : Follows start files changes lost)
include follows

theorem Follows.not_lost {text : String} (present : files path = some text) : path ∉ lost := by
  intro mem
  rw [follows.absent path mem] at present
  cases present

/--
A change that undoes to the files before: away from the files it touches
nothing happens, and those it touches are lost or alike in the replay.
-/
theorem Follows.step {kept : List AbsolutePathBuf}
    (touched : List AbsolutePathBuf) (undoes : undoChange change next = files)
    (elsewhere : ∀ other, other ∉ touched → next other = files other ∧
      (∀ before, replayChange before change other = before other) ∧ (other ∈ kept ↔ other ∈ lost))
    (there : ∀ other ∈ touched, ∀ before,
      if other ∈ kept then next other = none ∧ replayChange before change other ≠ none
      else replayChange before change other = next other) :
    Follows start next (changes ++ [change]) kept := by
  have each : ∀ other, if other ∈ kept then next other = none ∧
        replay (changes ++ [change]) start other ≠ none
      else replay (changes ++ [change]) start other = next other := by
    intro other
    rw [replay, foldl_append, foldl_cons, foldl_nil]
    by_cases isTouched : other ∈ touched
    · exact there other isTouched _
    · obtain ⟨same, plays, isLost⟩ := elsewhere other isTouched
      rw [same, plays]
      split
      next mem =>
        exact ⟨follows.absent other (isLost.mp mem), follows.claimed other (isLost.mp mem)⟩
      next missing => exact follows.agrees other (mt isLost.mpr missing)
  exact ⟨by rw [undo, foldr_append]; exact (congrArg _ undoes).trans follows.undone,
    fun other mem => ((if_pos mem).mp (each other)).1,
    fun other mem => ((if_pos mem).mp (each other)).2,
    fun other missing => (if_neg missing).mp (each other)⟩

/--
A change that sets one file, in the files and in the replay alike: the file is
no longer lost.
-/
theorem Follows.set {value : Option String}
    (plays : ∀ files, replayChange files change = Function.update files path value)
    (undoes : undoChange change (Function.update files path value) = files) :
    Follows start (Function.update files path value) (changes ++ [change])
      (lost.filter fun other => some path ≠ some other) := by
  refine follows.step [path] undoes (fun other untouched => ?_) fun other isTouched before => ?_
  · have differs : other ≠ path := by simpa using untouched
    simp [plays, differs, differs.symm]
  · obtain rfl : other = path := by simpa using isTouched
    simp [plays]

theorem Follows.move {path dest : AbsolutePathBuf}
    (present : files path = some old) (differs : path ≠ dest) :
    Follows start (Function.update (Function.update files dest (some new)) path none)
      (changes ++ [⟨path, .update (some dest) old (files dest) new⟩])
      (lost.filter fun other => some dest ≠ some other) := by
  refine follows.step [path, dest] ?_ (fun other untouched => ?_) fun other isTouched before => ?_
  · funext other
    simp only [undoChange, update_apply]
    split_ifs with source destination
    · rw [source, present]
    · rw [destination]
    · rfl
  · obtain ⟨notPath, notDest⟩ : other ≠ path ∧ other ≠ dest := by simpa using untouched
    simp [replayChange, notPath, notDest, notDest.symm]
  · -- The source is there before the round, so it is not a lost file; the two
    -- writes of the replay come in the other order than those of the round.
    rcases mem_pair.mp isTouched with rfl | rfl
    · simp [replayChange, differs, follows.not_lost present]
    · simp [replayChange, differs.symm]

theorem Follows.lose (present : files path = some old) :
    Follows start (Function.update (Function.update files path (some new)) path none)
      (changes ++ [⟨path, .update (some path) old (files path) new⟩])
      (path :: lost.filter fun other => some path ≠ some other) := by
  refine follows.step [path] ?_ (fun other untouched => ?_) fun other isTouched before => ?_
  · simp only [undoChange, update_idem, ← present, update_eq_self]
  · have differs : other ≠ path := by simpa using untouched
    simp [replayChange, differs, differs.symm]
  · obtain rfl : other = path := by simpa using isTouched
    simp [replayChange]

theorem Follows.committed (step : Committed base files hunk next change) :
    Follows start next (changes ++ [change])
      (let kept := lost.filter fun path =>
        writeTarget base files hunk ≠ some path
       if movesOntoItself base hunk then base.resolvePath hunk :: kept
       else kept) := by
  cases step with
  | added path contents =>
    refine follows.set (fun _ => rfl) ?_
    simp only [undoChange, update_idem, update_eq_self]
  | deleted path content present =>
    have kept : (lost.filter fun other =>
          some (base.resolve path) ≠ some other) = lost := by
      rw [filter_eq_self]
      intro other mem
      have differs : base.resolve path ≠ other := by
        rintro rfl
        exact follows.not_lost present mem
      simpa using differs
    have after : Follows start (Function.update files (base.resolve path) none)
        (changes ++ [⟨base.resolve path, .delete content⟩])
        (lost.filter fun other => some (base.resolve path) ≠ some other) := by
      refine follows.set (fun _ => rfl) ?_
      simp only [undoChange, update_idem, ← present, update_eq_self]
    rw [kept] at after
    simpa [writeTarget, movesOntoItself, PathBase.moveDestination]
      using after
  | updated path chunks old new present derived =>
    have target : writeTarget base files (.updateFile path none chunks) =
        some (base.resolve path) := by
      simp only [writeTarget, present, derived, Option.getD_none]
    simp only [target]
    refine follows.set (fun _ => rfl) ?_
    simp only [undoChange, update_idem, ← present, update_eq_self]
  | moved path dest chunks old new present derived =>
    have target : writeTarget base files (.updateFile path (some dest) chunks) =
          some (base.resolve dest) := by
      simp only [writeTarget, present, derived, Option.getD_some]
    have source : base.resolvePath (.updateFile path (some dest) chunks) = base.resolve path := rfl
    simp only [target, movesOntoItself, PathBase.moveDestination, source]
    by_cases same : base.resolve path = base.resolve dest
    · rw [← same, if_pos (beq_self_eq_true _)]
      exact follows.lose present
    · rw [if_neg (by simpa using Ne.symm same)]
      exact follows.move present same

theorem Follows.halfMoved {dest : AbsolutePathBuf} {new : String}
    (half : HalfMoved base files hunk dest new) :
    Follows start (Function.update files dest (some new))
      (changes ++ [⟨dest, .add new (files dest)⟩])
      (lost.filter fun path => writeTarget base files hunk ≠ some path) := by
  cases half with
  | written path dest chunks old _ present derived =>
    simp only [writeTarget, present, derived, Option.getD_some]
    refine follows.set (fun _ => rfl) ?_
    simp only [undoChange, update_idem, update_eq_self]

omit follows

/-! ## Whole runs -/

/-- A delta that is exact at the end has been so after every round. -/
theorem applyEach_follows {hunks : List Hunk} (progress : Progress)
    (follows : Follows start progress.disk.files progress.delta.changes lost)
    (exact : (applyEach base hunks progress).1.delta.exact = true) :
    Follows start (applyEach base hunks progress).1.disk.files
      (applyEach base hunks progress).1.delta.changes
      (lostFiles base hunks progress lost) := by
  induction hunks generalizing progress lost with
  | nil => exact follows
  | cons hunk rest ih =>
    have round := applyHunk_case base hunk progress
    unfold applyEach at exact ⊢
    unfold lostFiles
    generalize applyHunk base hunk progress = result at round exact ⊢
    obtain ⟨next, outcome⟩ := result
    rcases outcome with error | ⟨⟨⟩⟩
    · simp only at exact ⊢
      unfold Round.Is at round
      simp only at round
      generalize next.disk.files = nextFiles at round ⊢
      generalize next.delta = nextDelta at round exact ⊢
      cases round with
      | refused idle => simpa [idle] using follows
      | halfMoved half => exact follows.halfMoved base half
      | inexact => cases exact
    · simp only at exact ⊢
      refine ih next ?_ exact
      unfold Round.Is at round
      simp only at round
      generalize next.disk.files = nextFiles at round ⊢
      generalize next.delta = nextDelta at round ⊢
      cases round with
      | committed step => exact follows.committed base step

/--
An exact delta, of a run that succeeds or fails anywhere: undone it gives the
files at the start, and played again it gives the files at the end exactly if
every file that was moved onto itself has been written again.
-/
theorem exact_delta_describes_run (hunks : List Hunk) (console : Console) (disk : Disk)
    (exact : (applyHunks base hunks console disk).delta.exact = true) :
    undo (applyHunks base hunks console disk).delta.changes
        (applyHunks base hunks console disk).disk.files = disk.files ∧
      (replay (applyHunks base hunks console disk).delta.changes
          disk.files = (applyHunks base hunks console disk).disk.files ↔
        lostFiles base hunks (.start disk) [] = []) := by
  obtain ⟨sameDisk, sameDelta⟩ := applyHunks_eq base hunks console disk
  rw [sameDelta] at exact ⊢
  rw [sameDisk]
  have begins : Follows disk.files (Progress.start disk).disk.files
      (Progress.start disk).delta.changes [] :=
    ⟨rfl, by simp, by simp, fun _ _ => rfl⟩
  have ends := applyEach_follows base (.start disk) begins exact
  exact ⟨ends.undone, ends.replay_eq_iff⟩

end Runs

/-- One file, `/w/a`. -/
def sampleFiles : Files := fun path => if path = ⟨["w", "a"]⟩ then some "x\n" else none

def sampleBase : PathBase := ⟨none, ⟨["w"]⟩⟩

/-- A new file, and a move whose last step fails on `sampleOutcomes`. -/
def sampleHunks : List Hunk := [.addFile "c" "new\n",
    .updateFile "a" (some "../w/b") [⟨none, ["x"], ["y"], false⟩]]

def sampleOutcomes : List Outcome := [.succeeds, .succeeds, .fails ⟨.other, "busy"⟩ none]

theorem exact_delta_describes_failed_move :
    let applied := applyHunks sampleBase sampleHunks ⟨none, none⟩
      ⟨sampleFiles, sampleOutcomes⟩
    applied.delta = ⟨[⟨⟨["w", "c"]⟩, .add "new\n" none⟩, ⟨⟨["w", "b"]⟩, .add "y\n" none⟩], true⟩ ∧
      undo applied.delta.changes applied.disk.files = sampleFiles ∧
      replay applied.delta.changes sampleFiles = applied.disk.files := by
  have describes := exact_delta_describes_run sampleBase sampleHunks
    ⟨none, none⟩ ⟨sampleFiles, sampleOutcomes⟩ (by decide +kernel)
  have noneLost := lostFiles_eq_nil sampleBase sampleHunks
    (.start ⟨sampleFiles, sampleOutcomes⟩) (by decide +kernel)
  exact ⟨by decide +kernel, describes.1, describes.2.mpr noneLost⟩

/-- A file moved onto itself is gone, and the exact delta has its new text. -/
theorem exact_delta_misses_self_move :
    let applied := applyHunks sampleBase
      [.updateFile "a" (some "a") [⟨none, ["x"], ["y"], false⟩]]
      ⟨none, none⟩ ⟨sampleFiles, []⟩
    applied.delta.exact = true ∧ applied.disk.files ⟨["w", "a"]⟩ = none ∧
      replay applied.delta.changes sampleFiles ⟨["w", "a"]⟩ = some "y\n" := by
  decide +kernel

end Codex.ApplyPatch.ExactDelta
