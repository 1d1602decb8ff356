import Codex.Sandbox.Permissions

/-!
# Access decisions and the order of entries

Which access a path has depends only on which entries there are.  The check
that protects metadata is different: it asks the first writable entry that has
the path in a metadata child, and a writable entry inside a metadata child may
protect metadata of its own.  This module says for which paths that order can
be seen.
-/

namespace Codex.Sandbox.EntryOrder

open Library.LongestPrefix Paths Permissions FileSystemSandboxPolicy List

/-! ## What reordering keeps -/

section Reordered

variable {policy : FileSystemSandboxPolicy} {entries : List FileSystemSandboxEntry}
  (host : Host) (path : Path) (cwd : AbsolutePathBuf)

theorem mem_resolvedEntries_of_perm (reordered : entries.Perm policy.entries)
    (entry : ResolvedFileSystemEntry) :
    entry ∈ resolveEntries host cwd entries ↔ entry ∈ policy.resolvedEntriesWithCwd host cwd :=
  (reordered.filterMap (resolveEntry host cwd)).mem_iff

theorem resolveAccess_of_perm (reordered : entries.Perm policy.entries) :
    ({ policy with entries := entries }).resolveAccessWithCwd host path cwd =
      policy.resolveAccessWithCwd host path cwd := by
  obtain ⟨kind, depth, original⟩ := policy
  cases kind with
  | restricted => exact accessIn_congr (mem_resolvedEntries_of_perm host cwd reordered)
  | unrestricted => rfl
  | externalSandbox => rfl

theorem hasFullDiskWriteAccess_of_perm (reordered : entries.Perm policy.entries) :
    ({ policy with entries := entries }).hasFullDiskWriteAccess =
      policy.hasFullDiskWriteAccess := by
  have sameNarrowing : ({ policy with entries := entries }).narrowsWrite = policy.narrowsWrite := by
    funext entry
    simp only [narrowsWrite, hasSameTargetWriteOverride, reordered.any_eq]
  simp only [hasFullDiskWriteAccess, hasRootAccess, hasWriteNarrowingEntries, sameNarrowing,
    reordered.any_eq]

end Reordered

/-! ## Where the order shows -/

/-- The access alone does not settle a write: the metadata check is asked. -/
structure ChecksMetadata
    (policy : FileSystemSandboxPolicy) (host : Host) (path : Path)
    (cwd : AbsolutePathBuf) : Prop where
  isRestricted : policy.kind = .restricted
  writes : policy.resolveAccessWithCwd host path cwd = .write
  notFullDisk : policy.hasFullDiskWriteAccess = false

variable {policy : FileSystemSandboxPolicy} {cwd : AbsolutePathBuf} {host : Host} {path : Path}

theorem canWrite_of_checksMetadata (checks : ChecksMetadata policy host path cwd) :
    policy.canWritePathWithCwd host path cwd =
      !metadataWriteDenied (policy.resolvedEntriesWithCwd host cwd)
        (resolveCandidatePath host cwd path) := by
  simp [canWritePathWithCwd, isMetadataWriteDenied, checks.isRestricted,
    checks.writes, checks.notFullDisk, FileSystemAccessMode.canWrite]

theorem accessIn_of_checksMetadata (checks : ChecksMetadata policy host path cwd) :
    accessIn (policy.resolvedEntriesWithCwd host cwd)
      (resolveCandidatePath host cwd path) = .write :=
  (policy.resolveAccess_of_restricted host path cwd checks.isRestricted).symm.trans checks.writes

variable {entries : List FileSystemSandboxEntry}

theorem ChecksMetadata.of_perm (checks : ChecksMetadata policy host path cwd)
    (reordered : entries.Perm policy.entries) :
    ChecksMetadata { policy with entries := entries } host path cwd :=
  ⟨checks.isRestricted, (resolveAccess_of_perm host path cwd reordered).trans checks.writes,
    (hasFullDiskWriteAccess_of_perm reordered).trans checks.notFullDisk⟩

/--
Two writable entries have the target in a metadata child of theirs, and one of
them is the entry that governs the target.
-/
def Contested (entries : List ResolvedFileSystemEntry) (target : AbsolutePathBuf) : Prop :=
  ∃ inner outer, Governs (Named entries) inner target ∧
    ⟨inner, .write⟩ ∈ entries ∧ ⟨outer, .write⟩ ∈ entries ∧
    Guards inner target ∧ Guards outer target ∧ outer ≠ inner

section Decisions

variable {entries others : List ResolvedFileSystemEntry} {target : AbsolutePathBuf}

theorem contested_of_verdicts (same : ∀ entry, entry ∈ entries ↔ entry ∈ others)
    (writes : accessIn entries target = .write)
    (refused : metadataWriteDenied entries target = true)
    (granted : metadataWriteDenied others target = false) : Contested entries target := by
  obtain ⟨pos, governs⟩ := governs_of_accessIn
      (show accessIn entries target ≠ .deny by rw [writes]; decide)
  have strongestWrite : strongest entries pos = .write :=
    (accessIn_of_governs governs).symm.trans writes
  have governsOthers : Governs (Named others) pos target := (governs_congr fun path =>
      exists_congr fun entry => and_congr_left' (same entry)).mp governs
  have strongestOthers : strongest others pos = .write := by
    simpa only [strongest, same] using strongestWrite
  obtain ⟨name, found⟩ := (metadataWriteDenied_iff governs strongestWrite).mp refused
  obtain ⟨inner, isInner, isChild, isName, isPrefix⟩ := exists_of_metadataChild found
  obtain rfl : pos = inner := by simpa using congrArg (fun pair => pair.1.dropLast) isChild
  have guardsInner : Guards pos target := ⟨name, isName, isPrefix⟩
  cases other : metadataChildOfWritableRoot others target with
  | none => exact absurd guardsInner (metadataChild_eq_none_iff.mp other pos ((same _).mp isInner))
  | some child =>
    obtain ⟨outer, isOuter, outerChild, outerName, outerPrefix⟩ := exists_of_metadataChild other
    refine ⟨pos, outer, governs, isInner, (same _).mpr isOuter,
      guardsInner, ⟨child.2, outerName, outerPrefix⟩, ?_⟩
    rintro rfl
    have refusedToo := (metadataWriteDenied_iff governsOthers strongestOthers).mpr
        ⟨child.2, other.trans (congrArg some outerChild)⟩
    rw [granted] at refusedToo
    cases refusedToo

/-- The verdict of the entry at the front. -/
theorem metadataWriteDenied_cons {front pos : AbsolutePathBuf}
    (governs : Governs (Named (⟨front, .write⟩ :: entries)) pos target)
    (writes : strongest (⟨front, .write⟩ :: entries) pos = .write)
    (guards : Guards front target) :
    metadataWriteDenied (⟨front, .write⟩ :: entries) target = true ↔ front = pos := by
  obtain ⟨name, found⟩ := metadataChild_cons entries guards
  rw [metadataWriteDenied_iff governs writes, found]
  constructor
  · rintro ⟨other, equal⟩
    simpa using congrArg (fun pair => pair.1.dropLast) (Option.some.inj equal)
  · rintro rfl
    exact ⟨name, rfl⟩

end Decisions

theorem perm_of_mem_resolved {found : ResolvedFileSystemEntry}
    (mem : found ∈ resolveEntries host cwd entries) :
    ∃ reordered, reordered.Perm entries ∧
      ∃ rest, resolveEntries host cwd reordered = found :: rest := by
  obtain ⟨entry, isEntry, resolves⟩ := mem_filterMap.mp mem
  refine ⟨entry :: entries.erase entry, (perm_cons_erase isEntry).symm,
    resolveEntries host cwd (entries.erase entry), ?_⟩
  exact filterMap_cons_some resolves

/--
The decisions about a path are the same for every order of the entries,
unless the metadata check is asked about it and its target is contested.
-/
theorem decisions_independent_of_order_iff
    (policy : FileSystemSandboxPolicy) (host : Host) (path : Path)
    (cwd : AbsolutePathBuf) :
    (∀ entries, entries.Perm policy.entries →
      ({ policy with entries := entries }).canReadPathWithCwd host path cwd =
          policy.canReadPathWithCwd host path cwd ∧
        ({ policy with entries := entries }).canWritePathWithCwd host path cwd =
          policy.canWritePathWithCwd host path cwd) ↔
      ¬ (ChecksMetadata policy host path cwd ∧ Contested (policy.resolvedEntriesWithCwd host cwd)
          (resolveCandidatePath host cwd path)) := by
  constructor
  · rintro independent ⟨checks, inner, outer, governs, isInner, isOuter,
      guardsInner, guardsOuter, distinct⟩
    have writes : strongest (policy.resolvedEntriesWithCwd host cwd) inner = .write :=
      (accessIn_of_governs governs).symm.trans (accessIn_of_checksMetadata checks)
    -- Any guard may be listed first, and it is then the one asked.
    have verdict : ∀ front, ⟨front, .write⟩ ∈ policy.resolvedEntriesWithCwd host cwd →
        Guards front (resolveCandidatePath host cwd path) →
        (policy.canWritePathWithCwd host path cwd = false ↔ front = inner) := by
      intro front isFront guards
      obtain ⟨reordered, isPerm, rest, first⟩ := perm_of_mem_resolved
          (show _ ∈ resolveEntries host cwd policy.entries from isFront)
      have same := mem_resolvedEntries_of_perm host cwd isPerm
      rw [first] at same
      have governsFront : Governs (Named (⟨front, .write⟩ :: rest)) inner
            (resolveCandidatePath host cwd path) :=
        (governs_congr fun other =>
          exists_congr fun entry => and_congr_left' (same entry)).mpr governs
      have writesFront : strongest (⟨front, .write⟩ :: rest) inner = .write := by
        simpa only [strongest, same] using writes
      rw [← (independent reordered isPerm).2, canWrite_of_checksMetadata (checks.of_perm isPerm),
        resolvedEntriesWithCwd, first,
        Bool.not_eq_false',
        metadataWriteDenied_cons governsFront writesFront guards]
    have refused := (verdict inner isInner guardsInner).mpr rfl
    exact distinct ((verdict outer isOuter guardsOuter).mp refused)
  · intro uncontested entries reordered
    have sameAccess := resolveAccess_of_perm host path cwd reordered
    have sameFullDisk := hasFullDiskWriteAccess_of_perm reordered
    refine ⟨by simp only [canReadPathWithCwd, sameAccess], ?_⟩
    by_cases checks : ChecksMetadata policy host path cwd
    · rw [canWrite_of_checksMetadata checks, canWrite_of_checksMetadata (checks.of_perm reordered)]
      have same := mem_resolvedEntries_of_perm host cwd reordered
      have writes := accessIn_of_checksMetadata checks
      refine congrArg _ (Bool.eq_iff_iff.mpr ⟨fun refused => ?_, fun refused => ?_⟩)
      · by_contra granted
        have contested := contested_of_verdicts same ((accessIn_congr same).trans writes)
            refused (Bool.eq_false_iff.mpr granted)
        refine uncontested ⟨checks, ?_⟩
        obtain ⟨inner, outer, governs, isInner, isOuter, rest⟩ := contested
        exact ⟨inner, outer, (governs_congr fun other => exists_congr fun entry =>
            and_congr_left' (same entry)).mp governs,
          (same _).mp isInner, (same _).mp isOuter, rest⟩
      · by_contra granted
        exact uncontested ⟨checks, contested_of_verdicts (fun entry => (same entry).symm) writes
            refused (Bool.eq_false_iff.mpr granted)⟩
    · simp only [canWritePathWithCwd, sameAccess, sameFullDisk]
      by_cases writes : policy.resolveAccessWithCwd host path cwd = .write
      · by_cases isRestricted : policy.kind = .restricted
        · have fullDisk : policy.hasFullDiskWriteAccess = true := by
            rw [← Bool.not_eq_false]
            exact fun notFull => checks ⟨isRestricted, writes, notFull⟩
          simp [fullDisk]
        · simp [isMetadataWriteDenied, isRestricted]
      · have notWritable : (policy.resolveAccessWithCwd host path cwd).canWrite = false := by
          rwa [← Bool.not_eq_true, FileSystemAccessMode.canWrite_iff]
        simp [notWritable]

/--
A workspace and a writable directory inside its `.git`: whether the metadata
of that directory can be written depends on which entry is listed first.
-/
theorem nested_metadata_depends_on_order :
    let workspace : FileSystemSandboxEntry := ⟨.path ["w"], .write⟩
    let nested : FileSystemSandboxEntry := ⟨.path ["w", ".git", "sub"], .write⟩
    let target := asPath ["w", ".git", "sub", ".git", "x"]
    (FileSystemSandboxPolicy.restricted
        [workspace, nested]).canWritePathWithCwd bareHost target ["w"] =
      true ∧
    (FileSystemSandboxPolicy.restricted
        [nested, workspace]).canWritePathWithCwd bareHost target ["w"] =
      false := by
  decide +kernel

end Codex.Sandbox.EntryOrder
