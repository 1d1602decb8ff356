import Codex.Sandbox.Permissions

/-!
# Further denials

A policy that gains deny entries opens no path, although the metadata check and the shortcut for
full disk access read its entries in other ways than the access does.
-/

namespace Codex.Sandbox.FurtherDenials

open Library.LongestPrefix Paths Permissions FileSystemSandboxPolicy List

/-- Denials among the entries do not change the access that is still given. -/
theorem accessIn_of_stricter {entries stricter : List ResolvedFileSystemEntry}
    {target : AbsolutePathBuf} (kept : entries ⊆ stricter)
    (denied : ∀ entry ∈ stricter, entry ∈ entries ∨ entry.access = .deny)
    (allowed : accessIn stricter target ≠ .deny) :
    accessIn entries target = accessIn stricter target := by
  obtain ⟨pos, governs⟩ := governs_of_accessIn allowed
  rw [accessIn_of_governs governs] at allowed ⊢
  have listed := (denied _ (strongest_mem governs.isNamed)).resolve_right allowed
  have governsOld : Governs (Named entries) pos target := ⟨governs.isPrefix, named_of_mem listed,
    fun isPrefix ⟨entry, old, here⟩ => governs.longest isPrefix ⟨entry, kept old, here⟩⟩
  have noDeny : ⟨pos, .deny⟩ ∉ stricter := fun found => allowed (strongest_eq_deny_iff.mpr found)
  have writes : ⟨pos, .write⟩ ∈ entries ↔ ⟨pos, .write⟩ ∈ stricter :=
    ⟨fun old => kept old, fun found => (denied _ found).resolve_right nofun⟩
  rw [accessIn_of_governs governsOld, strongest, strongest, if_neg noDeny,
    if_neg fun old => noDeny (kept old)]
  simp only [writes]

variable {policy stricter : FileSystemSandboxPolicy} {host : Host} {path : Path}
  {cwd : AbsolutePathBuf}

/-- A policy with the entries of another, its writes in their order, and more denials. -/
structure AddsDenials (policy stricter : FileSystemSandboxPolicy) : Prop where
  kind : stricter.kind = policy.kind
  kept : policy.entries ⊆ stricter.entries
  denied : ∀ entry ∈ stricter.entries, entry ∈ policy.entries ∨ entry.access = .deny
  writes : stricter.entries.filter (·.access.canWrite) = policy.entries.filter (·.access.canWrite)

theorem canWrite_of_restricted (isRestricted : policy.kind = .restricted) :
    policy.canWritePathWithCwd host path cwd ↔
      policy.resolveAccessWithCwd host path cwd = .write ∧ (policy.hasFullDiskWriteAccess ∨
        metadataWriteDenied (policy.resolvedEntriesWithCwd host cwd)
          (resolveCandidatePath host cwd path) = false) := by
  simp only [canWritePathWithCwd, isMetadataWriteDenied, isRestricted, beq_self_eq_true, if_true]
  grind [FileSystemAccessMode.canWrite_iff]

namespace AddsDenials

variable (adds : AddsDenials policy stricter)
include adds

theorem metadataWriteDenied_eq (target : AbsolutePathBuf) :
    metadataWriteDenied (stricter.resolvedEntriesWithCwd host cwd) target =
      metadataWriteDenied (policy.resolvedEntriesWithCwd host cwd) target := by
  have writes : (stricter.resolvedEntriesWithCwd host cwd).filter (·.access.canWrite) =
      (policy.resolvedEntriesWithCwd host cwd).filter (·.access.canWrite) := by
    have resolved : ∀ entries : List FileSystemSandboxEntry,
        (resolveEntries host cwd entries).filter (·.access.canWrite) =
          resolveEntries host cwd (entries.filter (·.access.canWrite)) := by
      intro entries
      rw [resolveEntries, resolveEntries, filter_filterMap, filterMap_filter]
      refine filterMap_congr fun entry _ => ?_
      cases found : resolveEntryPath host cwd entry.path <;>
        simp [resolveEntry, found, Option.filter]
    exact (resolved _).trans ((congrArg _ adds.writes).trans (resolved _).symm)
  simp only [metadataWriteDenied, metadataChildOfWritableRoot,
    hasExplicitWriteEntryForMetadataPath, Bool.and_assoc, ← any_filter, writes]

theorem hasFullDiskWriteAccess (full : stricter.hasFullDiskWriteAccess) :
    policy.hasFullDiskWriteAccess := by
  unfold FileSystemSandboxPolicy.hasFullDiskWriteAccess at full ⊢
  rw [← adds.kind]
  split
  · rfl
  · rfl
  next isRestricted =>
    simp only [isRestricted, ← adds.kind, hasRootAccess, hasWriteNarrowingEntries,
      beq_self_eq_true, Bool.true_and, Bool.and_comm (_ == _), ← any_filter, adds.writes,
      Bool.and_eq_true, Bool.not_eq_true', any_eq_false] at full ⊢
    refine ⟨full.1, fun entry mem narrows => full.2 entry (adds.kept mem) ?_⟩
    simpa only [narrowsWrite, hasSameTargetWriteOverride, Bool.and_assoc, ← any_filter,
      adds.writes] using narrows

theorem resolveAccess_eq (allowed : stricter.resolveAccessWithCwd host path cwd ≠ .deny) :
    policy.resolveAccessWithCwd host path cwd = stricter.resolveAccessWithCwd host path cwd := by
  unfold resolveAccessWithCwd at allowed ⊢
  rw [← adds.kind]
  split
  · rfl
  · rfl
  next isRestricted =>
    rw [isRestricted] at allowed
    refine accessIn_of_stricter (filterMap_subset _ adds.kept) ?_ allowed
    rintro ⟨_, access⟩ listed
    obtain ⟨entry, mem, found, rfl⟩ := (mem_resolveEntries_iff host cwd).mp listed
    exact (adds.denied entry mem).imp_left fun old =>
      (mem_resolveEntries_iff host cwd).mpr ⟨entry, old, found, rfl⟩

end AddsDenials

/-- Further denials never open a path. -/
theorem denials_only_restrict (adds : AddsDenials policy stricter) (host : Host) (path : Path)
    (cwd : AbsolutePathBuf) :
    (stricter.canReadPathWithCwd host path cwd → policy.canReadPathWithCwd host path cwd) ∧
      (stricter.canWritePathWithCwd host path cwd → policy.canWritePathWithCwd host path cwd) := by
  refine ⟨fun allowed => ?_, fun allowed => ?_⟩
  · have same := adds.resolveAccess_eq (FileSystemAccessMode.canRead_iff.mp allowed)
    exact (congrArg _ same).trans allowed
  · cases isRestricted : policy.kind with
    | unrestricted | externalSandbox =>
      simp [canWritePathWithCwd, resolveAccessWithCwd, isRestricted,
        FileSystemSandboxPolicy.hasFullDiskWriteAccess]
    | restricted =>
      rw [canWrite_of_restricted (adds.kind.trans isRestricted), adds.metadataWriteDenied_eq]
        at allowed
      rw [canWrite_of_restricted isRestricted]
      have same := adds.resolveAccess_eq (allowed.1.trans_ne (by decide))
      exact ⟨same.trans allowed.1, allowed.2.imp_left adds.hasFullDiskWriteAccess⟩

/-- A file beside a denied directory stays writable without the denial. -/
theorem denials_only_restrict_child : (FileSystemSandboxPolicy.restricted
    [⟨.path ["work"], .write⟩]).canWritePathWithCwd bareHost (asPath ["work", "a"]) [] :=
  have adds : AddsDenials (.restricted [⟨.path ["work"], .write⟩])
      (.restricted [⟨.path ["work", "b"], .deny⟩, ⟨.path ["work"], .write⟩]) :=
    ⟨rfl, by decide, by decide, by decide⟩
  (denials_only_restrict adds bareHost (asPath ["work", "a"]) []).2 (by decide)

end Codex.Sandbox.FurtherDenials
