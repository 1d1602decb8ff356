import Codex.Sandbox.SemanticSignature

/-!
# What a signature determines

The access of a policy, reconstructed from its signature.  Reads follow from
the readable and unreadable roots.  Writes follow from the writable roots: an
entry that governs a path in one policy only is closed there, so it is a
read-only subpath of the root above it in both, and in the other policy it can
only stand there as a default.  A default that is a metadata child is judged
alike in both policies, since the protected names agree; what is left is the
directory of a `.git` file.
-/

namespace Codex.Sandbox.SignatureAccess

open Library.FirstOccurrences Library.LongestPrefix Paths Permissions List FileSystemAccessMode
  PolicyRoots SemanticSignature FileSystemSandboxPolicy

/-! ## Equal lists -/

theorem mem_of_sortedAbsolutePaths_eq {left right : List AbsolutePathBuf}
    (same : sortedAbsolutePaths left = sortedAbsolutePaths right)
    (path : AbsolutePathBuf) : path ∈ left ↔ path ∈ right := by
  have members := congrArg (fun paths => path ∈ paths) same
  simpa only [sortedAbsolutePaths, mem_insertionSort, eq_iff_iff] using members

variable {writable : WritableRoot}

theorem exists_of_sortedWritableRoots_eq {left right : List WritableRoot}
    (same : sortedWritableRoots left = sortedWritableRoots right) (mem : writable ∈ left) :
    ∃ other ∈ right, other.root = writable.root ∧ (∀ path, path ∈ writable.readOnlySubpaths ↔
        path ∈ other.readOnlySubpaths) ∧
      (∀ name, name ∈ writable.protectedMetadataNames ↔ name ∈ other.protectedMetadataNames) := by
  have inSorted : SemanticSignature.WritableRoot.sorted writable ∈ sortedWritableRoots right := by
    rw [← same, sortedWritableRoots, mem_insertionSort]
    exact mem_map_of_mem mem
  rw [sortedWritableRoots, mem_insertionSort, mem_map] at inSorted
  obtain ⟨other, isOther, equal⟩ := inSorted
  simp only [SemanticSignature.WritableRoot.sorted, WritableRoot.mk.injEq] at equal
  obtain ⟨sameRoot, sameSubpaths, sameNames⟩ := equal
  refine ⟨other, isOther, sameRoot, mem_of_sortedAbsolutePaths_eq sameSubpaths.symm, fun name => ?_⟩
  have members := congrArg (fun names => name ∈ names) sameNames
  simpa only [mem_dropRepeats_iff, mem_insertionSort, eq_iff_iff, Iff.comm] using members

/-! ## Reads -/

section Reads

variable {policy other : FileSystemSandboxPolicy} {host : Host} {cwd : AbsolutePathBuf}

theorem canRead_of_hasFullDiskReadAccess
    (full : policy.hasFullDiskReadAccess = true) (path : AbsolutePathBuf) :
    policy.canReadPathWithCwd host (asPath path) cwd = true := by
  rw [canReadPathWithCwd, canRead_iff]
  by_cases isRestricted : policy.kind = .restricted
  · rw [resolveAccess_asPath isRestricted]
    simp only [hasFullDiskReadAccess, isRestricted, hasRootAccess, beq_self_eq_true, Bool.true_and,
      hasDeniedReadRestrictions, Bool.and_eq_true,
      any_eq_true, beq_iff_eq, Bool.not_eq_true', any_eq_false]
      at full
    obtain ⟨⟨⟨_, access⟩, isEntry, rfl, -⟩, noDeny⟩ := full
    have rootNamed : Named (policy.resolvedEntriesWithCwd host cwd) [] :=
      named_of_mem ((mem_resolveEntries_iff host cwd).mpr ⟨_, isEntry, rfl, rfl⟩)
    obtain ⟨pos, governs⟩ := exists_governs nil_prefix rootNamed
    rw [accessIn_of_governs governs, Ne, strongest_eq_deny_iff]
    intro denied
    obtain ⟨entry, mem, -, isDeny⟩ := (mem_resolveEntries_iff host cwd).mp denied
    exact noDeny entry mem isDeny
  · cases kind : policy.kind with
    | restricted => exact absurd kind isRestricted
    | unrestricted | externalSandbox => simp [resolveAccessWithCwd, kind]

theorem isRestricted_of_limitedReads (limited : policy.hasFullDiskReadAccess = false) :
    policy.kind = .restricted := by
  cases kind : policy.kind with
  | restricted => rfl
  | unrestricted | externalSandbox => simp [hasFullDiskReadAccess, kind] at limited

theorem canRead_transfer (limited : policy.hasFullDiskReadAccess = false)
    (otherLimited : other.hasFullDiskReadAccess = false)
    (sameReadable : ∀ path, path ∈ getReadableRootsWithCwd policy host cwd ↔
      path ∈ getReadableRootsWithCwd other host cwd)
    (sameUnreadable : ∀ path, path ∈ getUnreadableRootsWithCwd policy host cwd ↔
        path ∈ getUnreadableRootsWithCwd other host cwd)
    {path : AbsolutePathBuf} (granted : policy.canReadPathWithCwd host (asPath path) cwd = true) :
    other.canReadPathWithCwd host (asPath path) cwd = true := by
  have isRestricted := isRestricted_of_limitedReads limited
  have otherRestricted := isRestricted_of_limitedReads otherLimited
  simp only [mem_readableRoots_iff isRestricted limited,
    mem_readableRoots_iff otherRestricted otherLimited] at sameReadable
  simp only [mem_unreadableRoots_iff isRestricted,
    mem_unreadableRoots_iff otherRestricted] at sameUnreadable
  rw [canReadPathWithCwd, canRead_iff] at granted ⊢
  rw [resolveAccess_asPath isRestricted] at granted
  rw [resolveAccess_asPath otherRestricted]
  obtain ⟨pos, governs⟩ := governs_of_accessIn granted
  rw [accessIn_of_governs governs] at granted
  obtain ⟨named, allowed⟩ := (sameReadable pos).mp ⟨governs.isNamed, granted⟩
  obtain ⟨deeper, deeperGoverns⟩ := exists_governs governs.isPrefix named
  rw [accessIn_of_governs deeperGoverns]
  -- A denied entry further down would be an unreadable root of both.
  intro denied
  have below := deeperGoverns.longest governs.isPrefix named
  by_cases same : deeper = pos
  · exact allowed (same ▸ denied)
  · have notRoot : deeper ≠ [] := by
      rintro rfl
      exact same (prefix_nil.mp below).symm
    have isDenied := ((sameUnreadable deeper).mpr ⟨strongest_eq_deny_iff.mp denied, notRoot⟩).1
    have above := governs.longest deeperGoverns.isPrefix (named_of_mem isDenied)
    exact same (prefix_antisymm above below)

theorem canRead_eq_of_signature_eq (same : semanticSignature policy host cwd =
      semanticSignature other host cwd) (path : AbsolutePathBuf) :
    policy.canReadPathWithCwd host (asPath path) cwd =
      other.canReadPathWithCwd host (asPath path) cwd := by
  simp only [semanticSignature, FileSystemSemanticSignature.mk.injEq] at same
  obtain ⟨sameFull, -, -, sameReadable, -, sameUnreadable, -⟩ := same
  have readable := mem_of_sortedAbsolutePaths_eq sameReadable
  have unreadable := mem_of_sortedAbsolutePaths_eq sameUnreadable
  cases full : policy.hasFullDiskReadAccess with
  | true =>
    rw [canRead_of_hasFullDiskReadAccess full, canRead_of_hasFullDiskReadAccess (sameFull ▸ full)]
  | false =>
    have otherFull : other.hasFullDiskReadAccess = false := sameFull ▸ full
    rw [Bool.eq_iff_iff]
    exact ⟨canRead_transfer full otherFull readable unreadable,
      canRead_transfer otherFull full (fun path => (readable path).symm)
        fun path => (unreadable path).symm⟩

end Reads

/-! ## Writes below limited roots -/

section LimitedWrites

variable {policy other : FileSystemSandboxPolicy} {host : Host} {cwd : AbsolutePathBuf}
  (limited : policy.hasFullDiskWriteAccess = false)
include limited

theorem isRestricted_of_limitedWrites : policy.kind = .restricted := by
  cases kind : policy.kind with
  | restricted => rfl
  | unrestricted | externalSandbox => simp [hasFullDiskWriteAccess, kind] at limited

variable {root path : AbsolutePathBuf}

/-- The root that a policy has at an open path. -/
theorem exists_mem_writableRoots (isOpen : strongest (policy.resolvedEntriesWithCwd host cwd) root =
      .write) :
    ∃ writable ∈ getWritableRootsWithCwd policy host cwd, writable.root = root := by
  have isRestricted := isRestricted_of_limitedWrites limited
  rw [getWritableRootsWithCwd, limited]
  simp only [Bool.false_eq_true, if_false, mem_map,
    exists_exists_and_eq_and, dedupAbsolutePaths, mem_firstOccurrences_iff]
  exact ⟨root, (mem_writableEntries_iff isRestricted limited).mpr isOpen, rfl⟩

theorem mem_writableRoots_spec (mem : writable ∈ getWritableRootsWithCwd policy host cwd) :
    strongest (policy.resolvedEntriesWithCwd host cwd) writable.root = .write ∧
      writable.readOnlySubpaths = readOnlySubpathsOf policy host cwd writable.root ∧
      ∀ name, name ∈ writable.protectedMetadataNames ↔ name ∈ protectedMetadataPathNames ∧
          policy.canWritePathWithCwd host (asPath (writable.root ++ [name])) cwd = false := by
  have isRestricted := isRestricted_of_limitedWrites limited
  rw [getWritableRootsWithCwd, limited] at mem
  simp only [Bool.false_eq_true, if_false, mem_map, dedupAbsolutePaths,
    mem_firstOccurrences_iff] at mem
  obtain ⟨root, isRoot, rfl⟩ := mem
  exact ⟨(mem_writableEntries_iff isRestricted limited).mp isRoot, rfl,
    fun name => mem_protectedMetadataNames_iff⟩

/-- The same root in a policy with the same sorted roots. -/
structure SharesRoot (policy other : FileSystemSandboxPolicy) (host : Host)
    (cwd root : AbsolutePathBuf) : Prop where
  isOpen : strongest (other.resolvedEntriesWithCwd host cwd) root = .write
  subpaths : ∀ path, path ∈ readOnlySubpathsOf policy host cwd root ↔
    path ∈ readOnlySubpathsOf other host cwd root
  children : ∀ name ∈ protectedMetadataPathNames,
    policy.canWritePathWithCwd host (asPath (root ++ [name])) cwd =
      other.canWritePathWithCwd host (asPath (root ++ [name])) cwd

variable (otherLimited : other.hasFullDiskWriteAccess = false)
  (same : sortedWritableRoots (getWritableRootsWithCwd policy host cwd) =
  sortedWritableRoots (getWritableRootsWithCwd other host cwd))
include otherLimited same

theorem sharesRoot_of_isOpen (isOpen : strongest (policy.resolvedEntriesWithCwd host cwd) root =
      .write) :
    SharesRoot policy other host cwd root := by
  obtain ⟨writable, mem, rfl⟩ := exists_mem_writableRoots limited isOpen
  obtain ⟨found, isFound, sameRoot, sameSubpaths, sameNames⟩ :=
    exists_of_sortedWritableRoots_eq same mem
  obtain ⟨-, subpaths, names⟩ := mem_writableRoots_spec limited mem
  obtain ⟨foundOpen, foundSubpaths, foundNames⟩ := mem_writableRoots_spec otherLimited isFound
  rw [sameRoot] at foundOpen foundSubpaths foundNames
  refine ⟨foundOpen, ?_, fun name isName => ?_⟩
  · rw [← subpaths, ← foundSubpaths]
    exact sameSubpaths
  · have agree := sameNames name
    rw [names, foundNames] at agree
    simp only [isName, true_and] at agree
    rwa [Bool.eq_iff_iff, ← not_iff_not, Bool.not_eq_true, Bool.not_eq_true]

omit otherLimited same in
theorem canWrite_between {pos middle : AbsolutePathBuf}
    (governs : Governs (Named (policy.resolvedEntriesWithCwd host cwd)) pos path)
    (granted : policy.canWritePathWithCwd host (asPath path) cwd = true)
    (above : pos <+: middle) (below : middle <+: path) :
    policy.canWritePathWithCwd host (asPath middle) cwd = true := by
  have isRestricted := isRestricted_of_limitedWrites limited
  rw [canWrite_asPath_iff isRestricted limited] at granted ⊢
  obtain ⟨writes, unguarded⟩ := granted
  have between := governs.between above below
  refine ⟨by rwa [accessIn_between governs above below], ?_⟩
  rw [accessIn_of_governs governs] at writes
  by_cases guards : Guards pos middle
  · obtain ⟨name, isName, isChild⟩ := guards
    rw [← metadataWriteDenied_child between writes isChild,
      metadataWriteDenied_child governs writes (isChild.trans below)]
    exact unguarded
  · exact metadataWriteDenied_of_not_guards between writes guards

/--
The directory of the `.git` file of an open root has no entry in the one
policy, which lets it be written, while the other policy has an entry there.
-/
def PointerHidden (policy other : FileSystemSandboxPolicy) (host : Host)
    (cwd : AbsolutePathBuf) : Prop :=
  ∃ root gitdir, strongest (policy.resolvedEntriesWithCwd host cwd) root = .write ∧
    pointedGitdir host root = some gitdir ∧
    ¬ Named (policy.resolvedEntriesWithCwd host cwd) gitdir ∧
    Named (other.resolvedEntriesWithCwd host cwd) gitdir ∧
    policy.canWritePathWithCwd host (asPath gitdir) cwd = true

omit same in
theorem pointerHidden_of_closed (isOpen : strongest (policy.resolvedEntriesWithCwd host cwd) root =
      .write)
    (shares : SharesRoot policy other host cwd root)
    (unnamed : ¬ Named (policy.resolvedEntriesWithCwd host cwd) path)
    (closed : Closed (other.resolvedEntriesWithCwd host cwd) path)
    (above : root <+: path) (distinct : path ≠ root)
    (granted : policy.canWritePathWithCwd host (asPath path) cwd = true) :
    PointerHidden policy other host cwd := by
  have isRestricted := isRestricted_of_limitedWrites limited
  have otherRestricted := isRestricted_of_limitedWrites otherLimited
  have readOnly := (shares.subpaths path).mpr
    ((mem_readOnlySubpathsOf_iff otherRestricted otherLimited).mpr (.inr ⟨closed, above, distinct⟩))
  rw [mem_readOnlySubpathsOf_iff isRestricted limited, mem_defaultReadOnlySubpaths_iff] at readOnly
  rcases readOnly with ⟨⟨name, isName, rfl, -⟩ | pointed, -⟩ | ⟨isClosed, -⟩
  · -- Both policies judge a metadata child alike, and the other closes it.
    rw [shares.children name isName,
      canWrite_of_named otherRestricted otherLimited closed.1] at granted
    exact absurd granted closed.2
  · exact ⟨root, path, isOpen, pointed, unnamed, closed.1, granted⟩
  · exact absurd isClosed.1 unnamed

/-- What one policy lets be written, the other does, unless a pointer hides. -/
theorem canWrite_transfer (shown : ¬ PointerHidden policy other host cwd)
    (granted : policy.canWritePathWithCwd host (asPath path) cwd = true) :
    other.canWritePathWithCwd host (asPath path) cwd = true := by
  have isRestricted := isRestricted_of_limitedWrites limited
  have otherRestricted := isRestricted_of_limitedWrites otherLimited
  obtain ⟨writes, -⟩ := (canWrite_asPath_iff isRestricted limited).mp granted
  obtain ⟨pos, governs⟩ := governs_of_accessIn (by rw [writes]; decide)
  rw [accessIn_of_governs governs] at writes
  have shares := sharesRoot_of_isOpen limited otherLimited same writes
  have named := named_of_strongest_eq_write shares.isOpen
  obtain ⟨deeper, deeperGoverns⟩ := exists_governs governs.isPrefix named
  have below := deeperGoverns.longest governs.isPrefix named
  by_cases distinct : deeper = pos
  · subst distinct
    rw [canWrite_asPath_iff otherRestricted otherLimited, accessIn_of_governs deeperGoverns]
    refine ⟨shares.isOpen, ?_⟩
    by_cases guards : Guards deeper path
    · obtain ⟨name, isName, isChild⟩ := guards
      have childGranted := canWrite_between limited governs granted
        (prefix_append deeper [name]) isChild
      rw [shares.children name isName,
        canWrite_asPath_iff otherRestricted otherLimited] at childGranted
      rw [← metadataWriteDenied_child deeperGoverns shares.isOpen isChild]
      exact childGranted.2
    · exact metadataWriteDenied_of_not_guards deeperGoverns shares.isOpen guards
  · -- The deeper entry is the other policy's alone, and it is closed.
    have unnamed : ¬ Named (policy.resolvedEntriesWithCwd host cwd) deeper :=
      fun isNamed => distinct (prefix_antisymm
        (governs.longest deeperGoverns.isPrefix isNamed) below)
    have closed : Closed (other.resolvedEntriesWithCwd host cwd) deeper := by
      refine ⟨deeperGoverns.isNamed, fun isOpen => unnamed ?_⟩
      have back := sharesRoot_of_isOpen otherLimited limited same.symm isOpen
      exact named_of_strongest_eq_write back.isOpen
    exact absurd (pointerHidden_of_closed limited otherLimited writes shares
      unnamed closed below distinct
      (canWrite_between limited governs granted below deeperGoverns.isPrefix)) shown

theorem not_canWrite_of_pointerHidden (hidden : PointerHidden policy other host cwd) :
    ∃ path, policy.canWritePathWithCwd host (asPath path) cwd ≠
      other.canWritePathWithCwd host (asPath path) cwd := by
  have otherRestricted := isRestricted_of_limitedWrites otherLimited
  obtain ⟨root, gitdir, -, -, unnamed, named, granted⟩ := hidden
  refine ⟨gitdir, fun equal => unnamed ?_⟩
  rw [equal, canWrite_of_named otherRestricted otherLimited named] at granted
  have back := sharesRoot_of_isOpen otherLimited limited same.symm granted
  exact named_of_strongest_eq_write back.isOpen

end LimitedWrites

/-! ## Writes everywhere -/

theorem eq_of_specialPathsShareTarget {left right : FileSystemSpecialPath}
    (shares : specialPathsShareTarget left right = true) : left = right := by
  cases left <;> cases right <;> simp_all [specialPathsShareTarget]

theorem resolveEntryPath_of_sharesTarget {host : Host}
    {cwd path : AbsolutePathBuf} {cand target : FileSystemPath}
    (shares : fileSystemPathsShareTarget cand target = true)
    (resolved : resolveEntryPath host cwd target = some path) :
    resolveEntryPath host cwd cand = some path ∨
      path = ["tmp"] ∧ host.isDirectory ["tmp"] = false := by
  cases cand with
  | path cand =>
    cases target with
    | path target =>
      obtain rfl : cand = target := by simpa [fileSystemPathsShareTarget] using shares
      exact .inl resolved
    | globPattern => simp [fileSystemPathsShareTarget] at shares
    | special value =>
      cases value <;>
        simp_all [fileSystemPathsShareTarget, specialPathMatchesAbsolutePath,
          resolveEntryPath, resolveFileSystemPath,
          resolveFileSystemSpecialPath, absoluteRootPathForCwd]
  | globPattern => cases target <;> simp_all [fileSystemPathsShareTarget]
  | special value =>
    cases target with
    | path target =>
      cases value <;>
        simp_all [fileSystemPathsShareTarget, specialPathMatchesAbsolutePath,
          resolveEntryPath, resolveFileSystemPath,
          resolveFileSystemSpecialPath, absoluteRootPathForCwd]
    | globPattern => simp [fileSystemPathsShareTarget] at shares
    | special target =>
      rw [eq_of_specialPathsShareTarget shares]
      exact .inl resolved

section FullWrites

variable {policy : FileSystemSandboxPolicy} {host : Host} {cwd : AbsolutePathBuf}
  (isRestricted : policy.kind = .restricted) (full : policy.hasFullDiskWriteAccess = true)
include isRestricted full

variable {entry : FileSystemSandboxEntry} {path : AbsolutePathBuf}

theorem narrowsWrite_eq_false
    (mem : entry ∈ policy.entries) : policy.narrowsWrite entry = false := by
  simp only [hasFullDiskWriteAccess, isRestricted, Bool.and_eq_true, Bool.not_eq_true',
    hasWriteNarrowingEntries, beq_self_eq_true,
    Bool.true_and, any_eq_false] at full
  exact Bool.eq_false_iff.mpr (full.2 entry mem)

theorem mem_root_of_full : ⟨[], .write⟩ ∈ policy.resolvedEntriesWithCwd host cwd := by
  simp only [hasFullDiskWriteAccess, isRestricted,
    Bool.and_eq_true, hasRootAccess, beq_self_eq_true,
    Bool.true_and, any_eq_true, beq_iff_eq,
    canWrite_iff] at full
  obtain ⟨⟨⟨_, _⟩, isEntry, rfl, rfl⟩, -⟩ := full
  exact (mem_resolveEntries_iff host cwd).mpr ⟨_, isEntry, rfl, rfl⟩

omit isRestricted full in
/-- An override reads, and its target is writable unless it is a missing `/tmp`. -/
theorem mem_write_of_override (resolved : resolveEntryPath host cwd entry.path = some path)
    (overridden : policy.hasSameTargetWriteOverride entry = true) :
    entry.access = .read ∧ (⟨path, .write⟩ ∈ policy.resolvedEntriesWithCwd host cwd ∨
        path = ["tmp"] ∧ host.isDirectory ["tmp"] = false) := by
  simp only [hasSameTargetWriteOverride, any_eq_true, Bool.and_eq_true, canWrite_iff,
    decide_eq_true_eq] at overridden
  obtain ⟨⟨cand, _⟩, isEntry, ⟨rfl, weaker⟩, sameTarget⟩ := overridden
  constructor
  · cases found : entry.access with
    | read => rfl
    | write => simp [found] at weaker
    | deny => simp [found, rank] at weaker
  · refine (resolveEntryPath_of_sharesTarget sameTarget resolved).imp_left fun same => ?_
    exact (mem_resolveEntries_iff host cwd).mpr ⟨_, isEntry, same, rfl⟩

theorem reads_of_full (mem : entry ∈ policy.entries)
    (resolved : resolveEntryPath host cwd entry.path = some path) (closed : entry.access ≠ .write) :
    entry.access = .read ∧ (⟨path, .write⟩ ∈ policy.resolvedEntriesWithCwd host cwd ∨
        path = ["tmp"] ∧ host.isDirectory ["tmp"] = false) := by
  have kept := narrowsWrite_eq_false isRestricted full mem
  obtain ⟨target, access⟩ := entry
  have notWrite : access.canWrite = false := by
    rw [Bool.eq_false_iff, Ne, canWrite_iff]
    exact closed
  cases target with
  | path _ => exact mem_write_of_override resolved (by simpa [narrowsWrite, notWrite] using kept)
  | globPattern _ => exact nomatch resolved
  | special value =>
    cases value with
    | root =>
      obtain rfl : [] = path := Option.some.inj resolved
      refine ⟨?_, .inl (mem_root_of_full isRestricted full)⟩
      cases access with
      | read => rfl
      | write => exact absurd rfl closed
      | deny => simp [narrowsWrite, notWrite] at kept
    | minimal | unknown => exact nomatch resolved
    | projectRoots _ | tmpdir | slashTmp =>
      exact mem_write_of_override resolved (by simpa [narrowsWrite, notWrite] using kept)

theorem eq_tmp_of_closed (closed : Closed (policy.resolvedEntriesWithCwd host cwd) path) :
    path = ["tmp"] ∧ host.isDirectory ["tmp"] = false := by
  obtain ⟨access, mem, notWrite⟩ := exists_closed_entry closed.1 closed.2
  obtain ⟨entry, isEntry, resolved, rfl⟩ := (mem_resolveEntries_iff host cwd).mp mem
  have isClosed : entry.access ≠ .write := by
    intro writes
    simp [writes, canWrite] at notWrite
  refine (reads_of_full isRestricted full isEntry resolved
    isClosed).2.resolve_left fun written => closed.2 ?_
  refine strongest_eq_write_iff.mpr ⟨written, fun denied => ?_⟩
  obtain ⟨denying, isDenying, resolvesThere, isDeny⟩ := (mem_resolveEntries_iff host cwd).mp denied
  have reads := (reads_of_full isRestricted full isDenying resolvesThere (by simp [isDeny])).1
  cases reads.symm.trans isDeny

theorem canWrite_iff_of_full (path : AbsolutePathBuf) :
    policy.canWritePathWithCwd host (asPath path) cwd = true ↔
      ¬ (Closed (policy.resolvedEntriesWithCwd host cwd) ["tmp"] ∧
        Governs (Named (policy.resolvedEntriesWithCwd host cwd)) ["tmp"] path) := by
  have above : ([] : AbsolutePathBuf) <+: path := nil_prefix
  obtain ⟨pos, governs⟩ := exists_governs above
    (named_of_mem (mem_root_of_full isRestricted full))
  have decided : policy.canWritePathWithCwd host (asPath path) cwd = true ↔
      strongest (policy.resolvedEntriesWithCwd host cwd) pos = .write := by
    rw [canWritePathWithCwd, full, resolveAccess_asPath isRestricted, accessIn_of_governs governs]
    simp [canWrite_iff]
  rw [decided]
  constructor
  · rintro writes ⟨closed, tmpGoverns⟩
    rw [governs.unique tmpGoverns] at writes
    exact closed.2 writes
  · intro unclosed
    by_contra notWrite
    have closed : Closed (policy.resolvedEntriesWithCwd host cwd) pos := ⟨governs.isNamed, notWrite⟩
    obtain ⟨rfl, -⟩ := eq_tmp_of_closed isRestricted full closed
    exact unclosed ⟨closed, governs⟩

end FullWrites

/-! ## Policies of one signature grant the same access -/

section Signature

variable (policy other : FileSystemSandboxPolicy) (host : Host) (cwd : AbsolutePathBuf)

/-- The entries close a path because `/tmp` only reads and governs it. -/
def TmpCloses (path : AbsolutePathBuf) : Prop := policy.kind = .restricted ∧
    Closed (policy.resolvedEntriesWithCwd host cwd) ["tmp"] ∧
    Governs (Named (policy.resolvedEntriesWithCwd host cwd)) ["tmp"] path

/-- Two policies grant the same reads and writes on absolute paths. -/
def SameAccess : Prop := ∀ path : Path, path.isAbsolute = true →
    policy.canReadPathWithCwd host path cwd = other.canReadPathWithCwd host path cwd ∧
      policy.canWritePathWithCwd host path cwd = other.canWritePathWithCwd host path cwd

/--
What the signature does not hold is the same: the paths that `/tmp` closes
where everything is writable, and the directories of `.git` files elsewhere.
-/
def SameBeyondSignature : Prop := (policy.hasFullDiskWriteAccess = true → ∀ path,
    (TmpCloses policy host cwd path ↔ TmpCloses other host cwd path)) ∧
  (policy.hasFullDiskWriteAccess = false →
    ¬ PointerHidden policy other host cwd ∧ ¬ PointerHidden other policy host cwd)

variable {policy other host cwd}

theorem canWrite_iff_not_tmpCloses
    (full : policy.hasFullDiskWriteAccess = true) (path : AbsolutePathBuf) :
    policy.canWritePathWithCwd host (asPath path) cwd = true ↔
      ¬ TmpCloses policy host cwd path := by
  by_cases isRestricted : policy.kind = .restricted
  · rw [canWrite_iff_of_full isRestricted full, TmpCloses]
    simp only [isRestricted, true_and]
  · refine iff_of_true ?_ fun closes => isRestricted closes.1
    cases kind : policy.kind with
    | restricted => exact absurd kind isRestricted
    | unrestricted | externalSandbox =>
      simp [canWritePathWithCwd, resolveAccessWithCwd, kind, full, canWrite]

theorem sameAccess_iff (sameReads : ∀ path : AbsolutePathBuf,
      policy.canReadPathWithCwd host (asPath path) cwd =
        other.canReadPathWithCwd host (asPath path) cwd) :
    SameAccess policy other host cwd ↔ ∀ path : AbsolutePathBuf,
        policy.canWritePathWithCwd host (asPath path) cwd =
          other.canWritePathWithCwd host (asPath path) cwd := by
  refine ⟨fun same path => (same (asPath path) rfl).2, fun same path isAbsolute => ?_⟩
  rw [canRead_of_isAbsolute isAbsolute, canRead_of_isAbsolute isAbsolute,
    canWrite_of_isAbsolute isAbsolute, canWrite_of_isAbsolute isAbsolute]
  exact ⟨sameReads _, same _⟩

theorem sameAccess_iff_of_signature_eq (same : semanticSignature policy host cwd =
      semanticSignature other host cwd) :
    SameAccess policy other host cwd ↔ SameBeyondSignature policy other host cwd := by
  rw [sameAccess_iff (canRead_eq_of_signature_eq same)]
  simp only [semanticSignature, FileSystemSemanticSignature.mk.injEq] at same
  obtain ⟨-, sameFull, -, -, sameRoots, -, -⟩ := same
  cases full : policy.hasFullDiskWriteAccess with
  | true =>
    have otherFull : other.hasFullDiskWriteAccess = true := sameFull ▸ full
    simp only [SameBeyondSignature, full, true_implies, Bool.true_eq_false, false_implies, and_true]
    refine forall_congr' fun path => ?_
    rw [Bool.eq_iff_iff, canWrite_iff_not_tmpCloses full,
      canWrite_iff_not_tmpCloses otherFull, not_iff_not]
  | false =>
    have otherFull : other.hasFullDiskWriteAccess = false := sameFull ▸ full
    simp only [SameBeyondSignature, full, true_implies, Bool.false_eq_true, false_implies, true_and]
    constructor
    · intro agree
      constructor
      · intro hidden
        obtain ⟨path, differs⟩ := not_canWrite_of_pointerHidden full otherFull sameRoots hidden
        exact differs (agree path)
      · intro hidden
        obtain ⟨path, differs⟩ := not_canWrite_of_pointerHidden otherFull full sameRoots.symm hidden
        exact differs (agree path).symm
    · rintro ⟨shown, otherShown⟩ path
      rw [Bool.eq_iff_iff]
      exact ⟨canWrite_transfer full otherFull sameRoots shown,
        canWrite_transfer otherFull full sameRoots.symm otherShown⟩

theorem signature_eq_of_not_needsDirect (isRestricted : policy.kind = .restricted)
    {network : NetworkSandboxPolicy} {legacy : SandboxPolicy}
    (converted : toLegacySandboxPolicy host cwd policy network = .ok legacy)
    (notDirect : needsDirectRuntimeEnforcement host cwd policy network = false) :
    semanticSignature policy host cwd =
      semanticSignature (legacyRuntimeFileSystemPolicyForCwd host cwd legacy) host cwd := by
  simp only [needsDirectRuntimeEnforcement, isRestricted, bne_self_eq_false,
    Bool.false_eq_true, if_false, converted, Bool.or_eq_false_iff,
    bne_eq_false_iff_eq] at notDirect
  exact notDirect.2

end Signature

/--
Policies with one signature, and a policy that is left to the legacy sandbox
together with its legacy form, grant the same access exactly if they agree on
what the signature does not hold.
-/
theorem signature_determines_access_iff
    (policy : FileSystemSandboxPolicy) (host : Host) (cwd : AbsolutePathBuf)
    (isRestricted : policy.kind = .restricted) :
    (∀ other, isSemanticallyEquivalentTo policy host cwd other = true →
      (SameAccess policy other host cwd ↔ SameBeyondSignature policy other host cwd)) ∧
    (∀ network legacy, toLegacySandboxPolicy host cwd policy network = .ok legacy →
      needsDirectRuntimeEnforcement host cwd policy network = false → (SameAccess policy
            (legacyRuntimeFileSystemPolicyForCwd host cwd legacy) host cwd ↔
          SameBeyondSignature policy (legacyRuntimeFileSystemPolicyForCwd host cwd legacy) host
            cwd)) := by
  constructor
  · intro other equivalent
    exact sameAccess_iff_of_signature_eq (beq_iff_eq.mp equivalent)
  · intro network legacy converted notDirect
    exact sameAccess_iff_of_signature_eq
      (signature_eq_of_not_needsDirect isRestricted converted notDirect)

/--
Where a policy reports full-disk access, the most specific entry of no
absolute path is narrower, as long as `/tmp` is a directory.
-/
theorem full_disk_access_sound (policy : FileSystemSandboxPolicy) (host : Host)
    (cwd : AbsolutePathBuf) (path : Path) (isAbsolute : path.isAbsolute = true)
    (isDirectory : host.isDirectory ["tmp"] = true) :
    (policy.hasFullDiskReadAccess = true → policy.canReadPathWithCwd host path cwd = true) ∧
    (policy.hasFullDiskWriteAccess = true → policy.resolveAccessWithCwd host path cwd = .write ∧
      policy.canWritePathWithCwd host path cwd = true) := by
  rw [canRead_of_isAbsolute isAbsolute]
  refine ⟨fun full => canRead_of_hasFullDiskReadAccess full _, fun full => ?_⟩
  have writes : policy.canWritePathWithCwd host path cwd = true := by
    rw [canWrite_of_isAbsolute isAbsolute, canWrite_iff_not_tmpCloses full]
    rintro ⟨isRestricted, closed, -⟩
    have missing := (eq_tmp_of_closed isRestricted full closed).2
    simp [isDirectory] at missing
  refine ⟨?_, writes⟩
  simpa [canWritePathWithCwd, full] using writes

/-- A policy that opens `/tmp` again under its symbolic name. -/
def reopenedTmp : FileSystemSandboxPolicy :=
  .restricted [⟨.special .root, .write⟩, ⟨.path ["tmp"], .read⟩, ⟨.special .slashTmp, .write⟩]

theorem reopenedTmp_sound : bareHost.isDirectory ["tmp"] = true ∧
    reopenedTmp.hasFullDiskWriteAccess = true ∧
    reopenedTmp.canWritePathWithCwd bareHost (asPath ["tmp", "x"]) ["w"] = true :=
  ⟨rfl, by decide, ((full_disk_access_sound reopenedTmp bareHost ["w"] (asPath ["tmp", "x"])
    rfl rfl).2 (by decide)).2⟩

/-! ## A workspace with a `.git` file -/

def workspacePolicy : FileSystemSandboxPolicy :=
  .restricted [⟨.special .root, .read⟩, ⟨.special (.projectRoots none), .write⟩]

def workspaceLegacy : SandboxPolicy := .workspaceWrite [] false true true

/-- A host whose workspace keeps its repository elsewhere inside. -/
def pointerHost : Host := { bareHost with
    isDirectory := fun path => path == ["w", ".agents"]
    isFile := fun path => path == ["w", ".git"]
    pathExists := fun path => path == ["w", "sub", "gd"]
    readToString := fun path => if path == ["w", ".git"] then some "gitdir: sub/gd" else none }

def plainHost : Host := { bareHost with
    isDirectory := fun path => [["w", ".git"], ["w", ".agents"], ["w", ".codex"]].contains path }

theorem workspace_left_to_legacy_sandbox : (workspacePolicy.kind = .restricted ∧
      toLegacySandboxPolicy plainHost ["w"] workspacePolicy .restricted = .ok workspaceLegacy ∧
      needsDirectRuntimeEnforcement plainHost ["w"] workspacePolicy .restricted = false) ∧
    (SameAccess workspacePolicy
        (legacyRuntimeFileSystemPolicyForCwd plainHost ["w"] workspaceLegacy)
        plainHost ["w"] ↔
      SameBeyondSignature workspacePolicy
        (legacyRuntimeFileSystemPolicyForCwd plainHost ["w"] workspaceLegacy)
        plainHost ["w"]) :=
  ⟨⟨rfl, by decide +kernel, by decide +kernel⟩,
    (signature_determines_access_iff workspacePolicy plainHost ["w"] rfl).2
      .restricted workspaceLegacy (by decide +kernel) (by decide +kernel)⟩

/-- The legacy sandbox closes a directory that the policy leaves open. -/
theorem legacy_sandbox_closes_pointed_gitdir :
    toLegacySandboxPolicy pointerHost ["w"] workspacePolicy .restricted = .ok workspaceLegacy ∧
      isSemanticallyEquivalentTo workspacePolicy pointerHost ["w"]
        (legacyRuntimeFileSystemPolicyForCwd pointerHost ["w"]
          workspaceLegacy) = true ∧
      needsDirectRuntimeEnforcement pointerHost ["w"] workspacePolicy .restricted = false ∧
      workspacePolicy.canWritePathWithCwd pointerHost
        (asPath ["w", "sub", "gd", "HEAD"]) ["w"] = true ∧
      (legacyRuntimeFileSystemPolicyForCwd pointerHost ["w"]
        workspaceLegacy).canWritePathWithCwd pointerHost
          (asPath ["w", "sub", "gd", "HEAD"]) ["w"] = false := by
  refine ⟨?_, ?_, ?_, ?_, ?_⟩ <;> decide +kernel

end Codex.Sandbox.SignatureAccess
