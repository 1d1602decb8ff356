import Codex.Library.FirstOccurrences
import Codex.Rust.Text
import Codex.Sandbox.Permissions
import Mathlib.Data.List.Sort

/-!
# The roots of a policy

The model of the projection that sandboxes use in place of the decisions of
`protocol/src/permissions.rs`: the readable and unreadable roots, the globs,
and the writable roots with the subpaths that stay read-only below them.
-/

namespace Codex.Sandbox.PolicyRoots

open Library.FirstOccurrences Library.LongestPrefix Rust.Text Paths List
  Permissions

/-- `dedup_absolute_paths`; effective paths are the paths themselves. -/
def dedupAbsolutePaths (paths : List AbsolutePathBuf) : List AbsolutePathBuf :=
  firstOccurrences paths

/-! ## Readable and unreadable roots -/

section Roots

variable (policy : FileSystemSandboxPolicy) (host : Host) (cwd : AbsolutePathBuf)

def getReadableRootsWithCwd : List AbsolutePathBuf :=
  if policy.hasFullDiskReadAccess then []
  else
    dedupAbsolutePaths ((((policy.resolvedEntriesWithCwd host cwd).filter
        fun entry => entry.access.canRead).filter
        fun entry => policy.canReadPathWithCwd host (asPath entry.path)
          cwd).map ResolvedFileSystemEntry.path)

def getUnreadableRootsWithCwd : List AbsolutePathBuf :=
  if policy.kind == .restricted then
    dedupAbsolutePaths (((((policy.resolvedEntriesWithCwd host cwd).filter
        fun entry => entry.access == .deny).filter
        fun entry => !policy.canReadPathWithCwd host (asPath entry.path) cwd).filter
        fun entry => absoluteRootPathForCwd cwd != entry.path).map ResolvedFileSystemEntry.path)
  else []

/-- The absolute pattern of a glob entry. -/
def resolvedPattern (entry : FileSystemSandboxEntry) : Option String :=
  match entry.path with
  | .globPattern pattern =>
    some (toText (resolvePathAgainstBase host.homeDirectory (parsePath pattern) cwd))
  | .path _ => none
  | .special _ => none

def getUnreadableGlobsWithCwd : List String :=
  if policy.kind == .restricted then
    dropRepeats (((policy.entries.filter fun entry => entry.access == .deny).filterMap
        (resolvedPattern host cwd)).insertionSort (· ≤ ·))
  else []

def includePlatformDefaults : Bool := !policy.hasFullDiskReadAccess && policy.kind == .restricted &&
    policy.entries.any fun entry => entry.path == .special .minimal && entry.access.canRead

end Roots

/-! ## Writable roots -/

structure WritableRoot where
  root : AbsolutePathBuf
  readOnlySubpaths : List AbsolutePathBuf
  protectedMetadataNames : List String
deriving DecidableEq

variable (writable : WritableRoot)

def WritableRoot.pathContainsProtectedMetadataName (path : Path) : Bool :=
  if path.startsWith writable.root then
    match path.components.drop writable.root.length with
    | [] => false
    | first :: _ => writable.protectedMetadataNames.any fun name => first.text == name
  else false

def WritableRoot.isPathWritable (path : Path) : Bool :=
  if !path.startsWith writable.root then false
  else if writable.readOnlySubpaths.any fun subpath => path.startsWith subpath then false
  else !writable.pathContainsProtectedMetadataName path

section Defaults

variable (host : Host)

def resolveGitdirFromFile (dotGit : AbsolutePathBuf) : Option AbsolutePathBuf :=
  match host.readToString dotGit with
  | none => none
  | some contents =>
    match splitOnce (trim contents) ":" with
    | none => none
    | some (label, gitdirRaw) =>
      if trim label != "gitdir" then none
      else if (trim gitdirRaw).isEmpty then none
      else
        let gitdirPath :=
          resolvePathAgainstBase host.homeDirectory (parsePath (trim gitdirRaw)) dotGit.dropLast
        if host.pathExists gitdirPath then some gitdirPath else none

variable (root : AbsolutePathBuf) (protectMissingDotCodex : Bool)

/-- The directory that the `.git` of a root points to. -/
def pointedGitdir : Option AbsolutePathBuf :=
  if host.isFile (root ++ [".git"]) then resolveGitdirFromFile host (root ++ [".git"])
  else none

def defaultReadOnlySubpathsForWritableRoot : List AbsolutePathBuf :=
  dedupAbsolutePaths ((if host.isDirectory (root ++ [".git"]) || host.isFile (root ++ [".git"]) then
      (pointedGitdir host root).toList ++ [root ++ [".git"]]
      else []) ++
    (if host.isDirectory (root ++ [".agents"]) then [root ++ [".agents"]]
      else []) ++
    (if protectMissingDotCodex || host.isDirectory (root ++ [".codex"]) then
      [root ++ [".codex"]]
      else []))

/-- Whether a metadata child of a root is read-only by default. -/
def protectsByDefault : String → Bool
  | ".git" => host.isDirectory (root ++ [".git"]) || host.isFile (root ++ [".git"])
  | ".agents" => host.isDirectory (root ++ [".agents"])
  | ".codex" => protectMissingDotCodex || host.isDirectory (root ++ [".codex"])
  | _ => false

theorem mem_defaultReadOnlySubpaths_iff {root path : AbsolutePathBuf}
    {protectMissingDotCodex : Bool} :
    path ∈ defaultReadOnlySubpathsForWritableRoot host root protectMissingDotCodex ↔
      (∃ name ∈ protectedMetadataPathNames, path = root ++ [name] ∧
        protectsByDefault host root protectMissingDotCodex name = true) ∨
      pointedGitdir host root = some path := by
  have isPointer : pointedGitdir host root = some path → host.isFile (root ++ [".git"]) = true := by
    unfold pointedGitdir
    split_ifs with isFile
    · exact fun _ => isFile
    · exact fun found => nomatch found
  simp only [defaultReadOnlySubpathsForWritableRoot, dedupAbsolutePaths,
    mem_firstOccurrences_iff, mem_append, protectedMetadataPathNames,
    mem_cons, not_mem_nil, or_false, exists_eq_or_imp,
    exists_eq_left, protectsByDefault, mem_ite_nil_right,
    Option.mem_toList, Bool.or_eq_true]
  tauto

end Defaults

variable (entries : List ResolvedFileSystemEntry)

section Writable

variable (policy : FileSystemSandboxPolicy) (host : Host) (cwd : AbsolutePathBuf)

/-- The paths of the writable entries that can themselves be written. -/
def writableEntries : List AbsolutePathBuf := (((policy.resolvedEntriesWithCwd host cwd).filter
    fun entry => entry.access.canWrite).filter
    fun entry => policy.canWritePathWithCwd host (asPath entry.path) cwd).map
      ResolvedFileSystemEntry.path

variable (root : AbsolutePathBuf)

def protectedMetadataNamesForWritableRoot (rawWritableRoots : List AbsolutePathBuf) : List String :=
  protectedMetadataPathNames.filter fun name =>
    (root :: rawWritableRoots).all fun raw =>
      !policy.canWritePathWithCwd host (asPath (raw ++ [name])) cwd

def hasExplicitResolvedPathEntry (path : AbsolutePathBuf) : Bool :=
  entries.any fun entry => entry.path == path

/-- The part of a carve-out that lies strictly below a root. -/
def carveoutBelow (root path : AbsolutePathBuf) : Option AbsolutePathBuf :=
  if path == root || !startsWith path root then none else some path

/-- The subpaths that stay read-only below a writable root. -/
def readOnlySubpathsOf : List AbsolutePathBuf :=
  let resolvedEntries := policy.resolvedEntriesWithCwd host cwd
  dedupAbsolutePaths ((defaultReadOnlySubpathsForWritableRoot host root (cwd == root)).filter
      (fun path => !hasExplicitResolvedPathEntry resolvedEntries path) ++
    (((resolvedEntries.filter fun entry => !entry.access.canWrite).filter
      fun entry => !policy.canWritePathWithCwd host (asPath entry.path)
        cwd).filterMap fun entry => carveoutBelow root entry.path))

def getWritableRootsWithCwd : List WritableRoot :=
  if policy.hasFullDiskWriteAccess then []
  else
    (dedupAbsolutePaths (writableEntries policy host cwd)).map fun root =>
      { root := root
        readOnlySubpaths := readOnlySubpathsOf policy host cwd root
        protectedMetadataNames := protectedMetadataNamesForWritableRoot policy host cwd root
            ((writableEntries policy host cwd).filter fun path => path == root) }

end Writable

/-! ## What the roots are -/

/-- A named path that is not left open for writing. -/
def Closed (path : AbsolutePathBuf) : Prop := Named entries path ∧ strongest entries path ≠ .write

theorem exists_closed_entry {entries : List ResolvedFileSystemEntry}
    {path : AbsolutePathBuf} (named : Named entries path)
    (closed : strongest entries path ≠ .write) :
    ∃ access, ⟨path, access⟩ ∈ entries ∧ access.canWrite = false :=
  ⟨_, strongest_mem named, by rwa [← Bool.not_eq_true, FileSystemAccessMode.canWrite_iff]⟩

variable {root : AbsolutePathBuf}

section Restricted

variable {policy : FileSystemSandboxPolicy} {host : Host} {cwd path : AbsolutePathBuf}
  (isRestricted : policy.kind = .restricted)
include isRestricted

theorem resolveAccess_asPath (path : AbsolutePathBuf) :
    policy.resolveAccessWithCwd host (asPath path) cwd =
      accessIn (policy.resolvedEntriesWithCwd host cwd) path := by
  rw [policy.resolveAccess_of_restricted host _ cwd isRestricted, resolveCandidatePath_asPath]

theorem mem_unreadableRoots_iff : path ∈ getUnreadableRootsWithCwd policy host cwd ↔
      ⟨path, .deny⟩ ∈ policy.resolvedEntriesWithCwd host cwd ∧ path ≠ [] := by
  have denied : ∀ {path : AbsolutePathBuf}, ⟨path, .deny⟩ ∈ policy.resolvedEntriesWithCwd host cwd →
        policy.canReadPathWithCwd host (asPath path) cwd = false := by
    intro path mem
    rw [FileSystemSandboxPolicy.canReadPathWithCwd,
      resolveAccess_asPath isRestricted, accessIn_of_named (named_of_mem mem),
      strongest_eq_deny_iff.mpr mem]
    rfl
  simp only [getUnreadableRootsWithCwd, isRestricted, beq_self_eq_true,
    if_true, dedupAbsolutePaths, mem_firstOccurrences_iff, mem_map,
    mem_filter, absoluteRootPathForCwd]
  constructor
  · rintro ⟨⟨found, access⟩, ⟨⟨⟨mem, isDeny⟩, -⟩, notRoot⟩, rfl⟩
    obtain rfl : access = .deny := by simpa using isDeny
    exact ⟨mem, by simpa using notRoot⟩
  · rintro ⟨mem, notRoot⟩
    refine ⟨⟨path, .deny⟩, ⟨⟨⟨mem, by simp⟩, ?_⟩, ?_⟩, rfl⟩
    · simp [denied mem]
    · simpa using notRoot

theorem mem_readableRoots_iff (limited : policy.hasFullDiskReadAccess = false) :
    path ∈ getReadableRootsWithCwd policy host cwd ↔
      Named (policy.resolvedEntriesWithCwd host cwd) path ∧
        strongest (policy.resolvedEntriesWithCwd host cwd) path ≠ .deny := by
  have readable : ∀ {path : AbsolutePathBuf}, Named (policy.resolvedEntriesWithCwd host cwd) path →
        (policy.canReadPathWithCwd host (asPath path) cwd = true ↔
          strongest (policy.resolvedEntriesWithCwd host cwd) path ≠ .deny) := by
    intro path named
    rw [FileSystemSandboxPolicy.canReadPathWithCwd,
      resolveAccess_asPath isRestricted, accessIn_of_named named,
      FileSystemAccessMode.canRead_iff]
  simp only [getReadableRootsWithCwd, limited, Bool.false_eq_true, if_false,
    dedupAbsolutePaths, mem_firstOccurrences_iff, mem_map,
    mem_filter]
  constructor
  · rintro ⟨⟨found, access⟩, ⟨⟨mem, -⟩, allowed⟩, rfl⟩
    exact ⟨named_of_mem mem, (readable (named_of_mem mem)).mp allowed⟩
  · rintro ⟨named, allowed⟩
    obtain ⟨⟨found, access⟩, mem, rfl⟩ := named
    refine ⟨⟨found, access⟩, ⟨⟨mem, ?_⟩, ?_⟩, rfl⟩
    · rw [FileSystemAccessMode.canRead_iff]
      rintro rfl
      exact allowed (strongest_eq_deny_iff.mpr mem)
    · exact (readable (named_of_mem mem)).mpr allowed

/-! ## What the writable roots are -/

variable (limited : policy.hasFullDiskWriteAccess = false)
include limited

/-- A write passes where the access is one and no metadata rule refuses. -/
theorem canWrite_asPath_iff : policy.canWritePathWithCwd host (asPath path) cwd = true ↔
      accessIn (policy.resolvedEntriesWithCwd host cwd) path = .write ∧
        metadataWriteDenied (policy.resolvedEntriesWithCwd host cwd) path = false := by
  rw [FileSystemSandboxPolicy.canWritePathWithCwd, resolveAccess_asPath isRestricted, limited,
    FileSystemSandboxPolicy.isMetadataWriteDenied, isRestricted,
    resolveCandidatePath_asPath]
  cases accessIn (policy.resolvedEntriesWithCwd host cwd) path <;>
    simp [FileSystemAccessMode.canWrite]

theorem canWrite_of_named (named : Named (policy.resolvedEntriesWithCwd host cwd) path) :
    policy.canWritePathWithCwd host (asPath path) cwd = true ↔
      strongest (policy.resolvedEntriesWithCwd host cwd) path = .write := by
  rw [canWrite_asPath_iff isRestricted limited, accessIn_of_named named]
  refine and_iff_left_of_imp fun writes =>
    metadataWriteDenied_of_not_guards (governs_self named) writes ?_
  rintro ⟨name, -, tooLong⟩
  exact absurd tooLong.length_le (by simp)

theorem mem_writableEntries_iff : path ∈ writableEntries policy host cwd ↔
      strongest (policy.resolvedEntriesWithCwd host cwd) path = .write := by
  simp only [writableEntries, mem_map, mem_filter, FileSystemAccessMode.canWrite_iff]
  constructor
  · rintro ⟨⟨found, access⟩, ⟨⟨mem, -⟩, allowed⟩, rfl⟩
    exact (canWrite_of_named isRestricted limited (named_of_mem mem)).mp allowed
  · intro writes
    have mem := (strongest_eq_write_iff.mp writes).1
    exact ⟨⟨path, .write⟩, ⟨⟨mem, rfl⟩, (canWrite_of_named isRestricted limited
        (named_of_mem mem)).mpr writes⟩, rfl⟩

/-- What stays read-only below a root: unnamed defaults and closed entries. -/
theorem mem_readOnlySubpathsOf_iff : path ∈ readOnlySubpathsOf policy host cwd root ↔
      (path ∈ defaultReadOnlySubpathsForWritableRoot host root (cwd == root) ∧
        ¬ Named (policy.resolvedEntriesWithCwd host cwd) path) ∨
      (Closed (policy.resolvedEntriesWithCwd host cwd) path ∧ root <+: path ∧ path ≠ root) := by
  simp only [readOnlySubpathsOf, dedupAbsolutePaths, mem_firstOccurrences_iff,
    mem_append, mem_filter, mem_filterMap, Bool.not_eq_true',
    hasExplicitResolvedPathEntry, carveoutBelow]
  refine or_congr (and_congr_right' ?_) ?_
  · simp only [any_eq_false, beq_iff_eq, Named, not_exists, not_and]
  · constructor
    · rintro ⟨⟨found, access⟩, ⟨⟨mem, -⟩, refused⟩, below⟩
      simp only [Option.ite_none_left_eq_some, Option.some.injEq,
        Bool.or_eq_true, beq_iff_eq, Bool.not_eq_true', not_or,
        Bool.not_eq_false, startsWith_iff] at below
      obtain ⟨⟨other, under⟩, rfl⟩ := below
      refine ⟨⟨named_of_mem mem, fun writes => ?_⟩, under, other⟩
      rw [(canWrite_of_named isRestricted limited (named_of_mem mem)).mpr writes] at refused
      cases refused
    · rintro ⟨⟨named, closed⟩, under, other⟩
      obtain ⟨access, mem, isClosed⟩ := exists_closed_entry named closed
      refine ⟨⟨path, access⟩, ⟨⟨mem, isClosed⟩, ?_⟩, ?_⟩
      · rw [Bool.eq_false_iff, Ne, canWrite_of_named isRestricted limited named]
        exact closed
      · simp [other, under]

omit limited

omit isRestricted in
theorem mem_protectedMetadataNames_iff {roots : List AbsolutePathBuf} {name : String} :
    name ∈ protectedMetadataNamesForWritableRoot policy host cwd root
        (roots.filter fun path => path == root) ↔
      name ∈ protectedMetadataPathNames ∧
        policy.canWritePathWithCwd host (asPath (root ++ [name])) cwd = false := by
  simp only [protectedMetadataNamesForWritableRoot, mem_filter,
    all_eq_true, mem_cons, beq_iff_eq, Bool.not_eq_true']
  refine and_congr_right' ⟨fun all => all root (.inl rfl), ?_⟩
  rintro refused raw (rfl | ⟨-, rfl⟩) <;> exact refused

end Restricted

end Codex.Sandbox.PolicyRoots
