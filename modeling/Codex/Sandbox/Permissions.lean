import Codex.Library.LongestPrefix
import Codex.Sandbox.Paths
import Mathlib.Data.Prod.Lex

/-!
# Filesystem permissions

The model of the access decisions of `protocol/src/permissions.rs`.  A policy
is a list of entries; each resolves to a path or to none, and the most
specific entry above a path decides it.  Writes are checked further: the
children of a writable root that hold project metadata stay protected unless
an entry opens them.
-/

namespace Codex.Sandbox.Permissions

open Library.LongestPrefix Paths List

/-! ## Policies -/

/-- `FileSystemAccessMode`, in the order of its constructors. -/
inductive FileSystemAccessMode where
  | read
  | write
  | deny
deriving DecidableEq

variable {access : FileSystemAccessMode}

namespace FileSystemAccessMode

def canRead : FileSystemAccessMode → Bool
  | .deny => false
  | _ => true

def canWrite : FileSystemAccessMode → Bool
  | .write => true
  | _ => false

/-- The derived order, which breaks ties between equally specific entries. -/
def rank : FileSystemAccessMode → Nat
  | .read => 0
  | .write => 1
  | .deny => 2

@[simp] theorem canWrite_iff : access.canWrite = true ↔ access = .write := by
  cases access <;> decide

@[simp] theorem canRead_iff : access.canRead = true ↔ access ≠ .deny := by cases access <;> decide

end FileSystemAccessMode

inductive FileSystemSpecialPath where
  | root
  | minimal
  | projectRoots (subpath : Option Path)
  | tmpdir
  | slashTmp
  | unknown (path : String) (subpath : Option Path)
deriving DecidableEq

inductive FileSystemPath where
  | path (path : AbsolutePathBuf)
  | globPattern (pattern : String)
  | special (value : FileSystemSpecialPath)
deriving DecidableEq

structure FileSystemSandboxEntry where
  path : FileSystemPath
  access : FileSystemAccessMode
deriving DecidableEq

inductive FileSystemSandboxKind where
  | restricted
  | unrestricted
  | externalSandbox
deriving DecidableEq

structure FileSystemSandboxPolicy where
  kind : FileSystemSandboxKind
  globScanMaxDepth : Option Nat
  entries : List FileSystemSandboxEntry
deriving DecidableEq

def FileSystemSandboxPolicy.restricted
    (entries : List FileSystemSandboxEntry) : FileSystemSandboxPolicy :=
  ⟨.restricted, none, entries⟩

structure ResolvedFileSystemEntry where
  path : AbsolutePathBuf
  access : FileSystemAccessMode
deriving DecidableEq

/-! ## The host -/

/-- What a decision reads from the process and the filesystem. -/
structure Host where
  homeDirectory : Option AbsolutePathBuf
  currentDirectory : Option AbsolutePathBuf
  /-- The value of `TMPDIR`, unless it is unset or empty. -/
  tmpdir : Option Path
  isDirectory : AbsolutePathBuf → Bool
  isFile : AbsolutePathBuf → Bool
  pathExists : AbsolutePathBuf → Bool
  readToString : AbsolutePathBuf → Option String
  /-- `build_glob_matcher`, with the compiled matcher it may yield. -/
  buildGlobMatcher : String → Option (AbsolutePathBuf → Bool)

/-- A host without files on which `/tmp` is the only directory. -/
def bareHost : Host where
  homeDirectory := none
  currentDirectory := none
  tmpdir := none
  isDirectory := fun path => path == ["tmp"]
  isFile := fun _ => false
  pathExists := fun path => path == ["tmp"]
  readToString := fun _ => none
  buildGlobMatcher := fun _ => none

/-! ## Resolution of entries -/

section Resolution

variable (host : Host) (cwd : AbsolutePathBuf)

def absoluteRootPathForCwd (_cwd : AbsolutePathBuf) : AbsolutePathBuf := []

def resolveFileSystemSpecialPath : FileSystemSpecialPath → Option AbsolutePathBuf
  | .root | .minimal | .unknown _ _ => none
  | .projectRoots (some subpath) => some (resolvePathAgainstBase host.homeDirectory subpath cwd)
  | .projectRoots none => some cwd
  | .tmpdir => host.tmpdir.bind (fromAbsolutePath host.homeDirectory host.currentDirectory)
  | .slashTmp => if host.isDirectory ["tmp"] then some ["tmp"] else none

def resolveFileSystemPath : FileSystemPath → Option AbsolutePathBuf
  | .path path => some path
  | .globPattern _ => none
  | .special value => resolveFileSystemSpecialPath host cwd value

def resolveEntryPath : FileSystemPath → Option AbsolutePathBuf
  | .special .root => some (absoluteRootPathForCwd cwd)
  | path => resolveFileSystemPath host cwd path

/-- `resolve_candidate_path`; the working directory is absolute. -/
def resolveCandidatePath (path : Path) : AbsolutePathBuf :=
  if path.isAbsolute then normalizeFrom [] path.components
  else resolvePathAgainstBase host.homeDirectory path cwd

@[simp] theorem resolveCandidatePath_asPath (path : AbsolutePathBuf) :
    resolveCandidatePath host cwd (asPath path) = path := by
  simpa [resolveCandidatePath, asPath] using normalizeFrom_normal [] path

def resolveEntry (entry : FileSystemSandboxEntry) : Option ResolvedFileSystemEntry :=
  (resolveEntryPath host cwd entry.path).map fun path => ⟨path, entry.access⟩

def resolveEntries (entries : List FileSystemSandboxEntry) : List ResolvedFileSystemEntry :=
  entries.filterMap (resolveEntry host cwd)

def FileSystemSandboxPolicy.resolvedEntriesWithCwd
    (policy : FileSystemSandboxPolicy) : List ResolvedFileSystemEntry :=
  resolveEntries host cwd policy.entries

theorem mem_resolveEntries_iff {entries : List FileSystemSandboxEntry} {path : AbsolutePathBuf} :
    ⟨path, access⟩ ∈ resolveEntries host cwd entries ↔
      ∃ entry ∈ entries, resolveEntryPath host cwd entry.path = some path ∧
        entry.access = access := by
  simp [resolveEntries, resolveEntry, mem_filterMap]

end Resolution

/-! ## The most specific entry -/

/-- `resolved_entry_precedence`: the root counts as a component. -/
def resolvedEntryPrecedence (entry : ResolvedFileSystemEntry) : ℕ ×ₗ ℕ :=
  toLex (entry.path.length + 1, entry.access.rank)

variable (entries : List ResolvedFileSystemEntry) (target : AbsolutePathBuf)

/-- The access that resolved entries give a target. -/
def accessIn : FileSystemAccessMode :=
  ((maxByKey resolvedEntryPrecedence (entries.filter fun entry => startsWith target entry.path)).map
      ResolvedFileSystemEntry.access).getD .deny

/-- Whether some entry resolves to a path. -/
def Named (path : AbsolutePathBuf) : Prop := ∃ entry ∈ entries, entry.path = path

/-- The access that wins among the entries at one path. -/
def strongest (path : AbsolutePathBuf) : FileSystemAccessMode :=
  if ⟨path, .deny⟩ ∈ entries then .deny
  else if ⟨path, .write⟩ ∈ entries then .write
  else .read

variable {entry : ResolvedFileSystemEntry}

section Strongest

variable {entries : List ResolvedFileSystemEntry} {path : AbsolutePathBuf}

theorem named_of_mem (mem : ⟨path, access⟩ ∈ entries) : Named entries path := ⟨_, mem, rfl⟩

theorem strongest_eq_deny_iff : strongest entries path = .deny ↔ ⟨path, .deny⟩ ∈ entries := by
  unfold strongest
  split
  · simpa
  · split <;> simpa

theorem strongest_eq_write_iff : strongest entries path = .write ↔
      ⟨path, .write⟩ ∈ entries ∧ ⟨path, .deny⟩ ∉ entries := by
  unfold strongest
  split
  · simp_all
  · split <;> simp_all

theorem named_of_strongest_eq_write
    (writes : strongest entries path = .write) : Named entries path :=
  named_of_mem (strongest_eq_write_iff.mp writes).1

theorem strongest_mem (named : Named entries path) : ⟨path, strongest entries path⟩ ∈ entries := by
  obtain ⟨⟨_, access⟩, mem, rfl⟩ := named
  unfold strongest
  split
  · assumption
  next notDeny =>
    split
    · assumption
    next notWrite =>
      cases access with
      | read => exact mem
      | write => exact absurd mem notWrite
      | deny => exact absurd mem notDeny

theorem mem_read_of_strongest (named : Named entries path)
    (reads : strongest entries path = .read) : ⟨path, .read⟩ ∈ entries :=
  reads ▸ strongest_mem named

theorem not_written_of_strongest (reads : strongest entries path = .read) :
    ⟨path, .write⟩ ∉ entries := by
  intro written
  simp only [strongest, written, if_true] at reads
  split at reads <;> cases reads

theorem strongest_eq_of_rank_le (mem : entry ∈ entries)
    (highest : ∀ other ∈ entries, other.path = entry.path → other.access.rank ≤ entry.access.rank) :
    strongest entries entry.path = entry.access := by
  cases found : entry.access with
  | deny =>
    rw [strongest_eq_deny_iff, ← found]
    exact mem
  | write =>
    refine strongest_eq_write_iff.mpr ⟨found ▸ mem, fun denied => ?_⟩
    simpa [found, FileSystemAccessMode.rank] using highest _ denied rfl
  | read =>
    have notDeny : ⟨entry.path, .deny⟩ ∉ entries := fun denied => by
      simpa [found, FileSystemAccessMode.rank] using highest _ denied rfl
    have notWrite : ⟨entry.path, .write⟩ ∉ entries := fun written => by
      simpa [found, FileSystemAccessMode.rank] using highest _ written rfl
    rw [strongest, if_neg notDeny, if_neg notWrite]

end Strongest

section Access

variable {entries : List ResolvedFileSystemEntry} {pos target : AbsolutePathBuf}

theorem accessIn_of_unnamed (unnamed : ∀ path, path <+: target → ¬ Named entries path) :
    accessIn entries target = .deny := by
  have none : (entries.filter fun entry => startsWith target entry.path) = [] := by
    rw [filter_eq_nil_iff]
    intro entry mem isPrefix
    exact unnamed entry.path (startsWith_iff.mp isPrefix) ⟨_, mem, rfl⟩
  rw [accessIn, none]
  rfl

theorem accessIn_of_governs (governs : Governs (Named entries) pos target) :
    accessIn entries target = strongest entries pos := by
  obtain ⟨governing, isEntry, atPosition⟩ := governs.isNamed
  unfold accessIn
  cases found : maxByKey resolvedEntryPrecedence
      (entries.filter fun entry => startsWith target entry.path) with
  | none =>
    have empty := (maxByKey_eq_none_iff _).mp found
    have mem : governing ∈ entries.filter fun entry => startsWith target entry.path := by
      rw [mem_filter, startsWith_iff, atPosition]
      exact ⟨isEntry, governs.isPrefix⟩
    rw [empty] at mem
    exact nomatch mem
  | some best =>
    obtain ⟨mem, largest⟩ := maxByKey_spec _ found
    rw [mem_filter, startsWith_iff] at mem
    have atLeast : ∀ entry ∈ entries, entry.path <+: target →
        resolvedEntryPrecedence entry ≤ resolvedEntryPrecedence best := by
      intro entry isMember isPrefix
      refine largest entry ?_
      rw [mem_filter, startsWith_iff]
      exact ⟨isMember, isPrefix⟩
    simp only [resolvedEntryPrecedence, Prod.Lex.toLex_le_toLex] at atLeast
    -- The best entry is as long as the governing path, hence at it.
    have below : best.path <+: pos := governs.longest mem.2 ⟨best, mem.1, rfl⟩
    have long : pos.length ≤ best.path.length := by
      have := atLeast governing isEntry (atPosition ▸ governs.isPrefix)
      rw [atPosition] at this
      omega
    have same : best.path = pos := below.eq_of_length (le_antisymm below.length_le long)
    rw [← same]
    refine (strongest_eq_of_rank_le mem.1 fun other isMember samePath => ?_).symm
    have := atLeast other isMember (samePath ▸ mem.2)
    rw [samePath] at this
    omega

theorem accessIn_of_named (named : Named entries target) :
    accessIn entries target = strongest entries target :=
  accessIn_of_governs (governs_self named)

theorem accessIn_between {middle : AbsolutePathBuf}
    (governs : Governs (Named entries) pos target)
    (above : pos <+: middle) (below : middle <+: target) :
    accessIn entries middle = accessIn entries target := by
  rw [accessIn_of_governs governs, accessIn_of_governs (governs.between above below)]

theorem governs_of_accessIn (allowed : accessIn entries target ≠ .deny) :
    ∃ pos, Governs (Named entries) pos target := by
  rcases exists_governs_or (Named entries) target with governed | unnamed
  · exact governed
  · exact absurd (accessIn_of_unnamed unnamed) allowed

theorem accessIn_congr {others : List ResolvedFileSystemEntry}
    (same : ∀ entry, entry ∈ entries ↔ entry ∈ others) :
    accessIn entries target = accessIn others target := by
  have sameNamed : ∀ path, Named entries path ↔ Named others path := by
    intro path
    exact exists_congr fun entry => and_congr_left' (same entry)
  rcases exists_governs_or (Named entries) target with
    ⟨pos, governs⟩ | unnamed
  · rw [accessIn_of_governs governs, accessIn_of_governs ((governs_congr sameNamed).mp governs)]
    simp only [strongest, same]
  · rw [accessIn_of_unnamed unnamed, accessIn_of_unnamed]
    exact fun path isPrefix named => unnamed path isPrefix ((sameNamed path).mpr named)

end Access

/-! ## Protected metadata -/

def protectedMetadataPathNames : List String := [".git", ".agents", ".codex"]

def metadataPathName (name : String) : Option String :=
  protectedMetadataPathNames.find? fun metadataName => name == metadataName

@[simp] theorem metadataPathName_eq_some_iff {name found : String} :
    metadataPathName name = some found ↔ found = name ∧ name ∈ protectedMetadataPathNames := by
  unfold metadataPathName
  constructor
  · intro isFound
    have same := find?_some isFound
    have mem := mem_of_find?_eq_some isFound
    obtain rfl : name = found := by simpa using same
    exact ⟨rfl, mem⟩
  · rintro ⟨rfl, mem⟩
    cases search : protectedMetadataPathNames.find? fun metadataName => found == metadataName with
    | none =>
      have := find?_eq_none.mp search found mem
      simp at this
    | some other =>
      have same := find?_some search
      obtain rfl : found = other := by simpa using same
      rfl

/-- The names below a base, if the path lies there. -/
def stripBase (path base : AbsolutePathBuf) : Option AbsolutePathBuf :=
  if startsWith path base then some (path.drop base.length) else none

/-- The metadata name under which a writable entry has the target. -/
def guardedName (entry : ResolvedFileSystemEntry) : Option String :=
  ((stripBase target entry.path).bind List.head?).bind metadataPathName

/-- `metadata_child_of_writable_root`: the first writable entry decides. -/
def metadataChildOfWritableRoot : Option (AbsolutePathBuf × String) :=
  ((entries.filter fun entry => entry.access.canWrite).filterMap
    fun entry => (guardedName target entry).map fun name => (entry.path ++ [name], name)).head?

def hasExplicitWriteEntryForMetadataPath (protectedMetadataPath target : AbsolutePathBuf) : Bool :=
  entries.any fun entry =>
    entry.access.canWrite && startsWith target entry.path &&
      startsWith entry.path protectedMetadataPath

/-- `is_metadata_write_denied`, for the entries of a restricted policy. -/
def metadataWriteDenied : Bool :=
  match metadataChildOfWritableRoot entries target with
  | none => false
  | some (protectedMetadataPath, _) =>
    !hasExplicitWriteEntryForMetadataPath entries protectedMetadataPath target

/-- A path has the target under one of its metadata children. -/
def Guards (path target : AbsolutePathBuf) : Prop :=
  ∃ name ∈ protectedMetadataPathNames, path ++ [name] <+: target

theorem guardedName_eq_some_iff {target : AbsolutePathBuf} {name : String} :
    guardedName target entry = some name ↔
      name ∈ protectedMetadataPathNames ∧ entry.path ++ [name] <+: target := by
  unfold guardedName stripBase
  by_cases above : entry.path <+: target
  · obtain ⟨rest, rfl⟩ := above
    have under : startsWith (entry.path ++ rest) entry.path = true := by simp
    rw [if_pos under]
    cases rest with
    | nil =>
      have tooLong : ¬ entry.path ++ [name] <+: entry.path :=
        fun isPrefix => absurd isPrefix.length_le (by simp)
      simp [tooLong]
    | cons first rest =>
      simp only [drop_left, Option.bind_some, head?_cons, metadataPathName_eq_some_iff]
      rw [prefix_append_right_inj, cons_prefix_cons]
      constructor
      · rintro ⟨rfl, mem⟩
        exact ⟨mem, rfl, nil_prefix⟩
      · rintro ⟨mem, rfl, -⟩
        exact ⟨rfl, mem⟩
  · have outside : ¬ startsWith target entry.path = true := by simpa
    rw [if_neg outside]
    simp only [Option.bind_none, reduceCtorEq, false_iff, not_and]
    exact fun _ isPrefix => above ((prefix_append _ _).trans isPrefix)

section Metadata

variable {entries : List ResolvedFileSystemEntry} {target : AbsolutePathBuf}

theorem exists_of_metadataChild {child : AbsolutePathBuf × String}
    (found : metadataChildOfWritableRoot entries target = some child) :
    ∃ path, ⟨path, .write⟩ ∈ entries ∧ child = (path ++ [child.2], child.2) ∧
      child.2 ∈ protectedMetadataPathNames ∧
      path ++ [child.2] <+: target := by
  have mem := mem_of_head? found
  simp only [mem_filterMap, mem_filter,
    FileSystemAccessMode.canWrite_iff, Option.map_eq_some_iff] at mem
  obtain ⟨⟨path, access⟩, ⟨isEntry, rfl⟩, name, guarded, rfl⟩ := mem
  obtain ⟨isName, isPrefix⟩ := guardedName_eq_some_iff.mp guarded
  exact ⟨path, isEntry, rfl, isName, isPrefix⟩

theorem metadataChild_eq_none_iff : metadataChildOfWritableRoot entries target = none ↔
      ∀ path, ⟨path, .write⟩ ∈ entries → ¬ Guards path target := by
  unfold metadataChildOfWritableRoot
  rw [head?_eq_none_iff, filterMap_eq_nil_iff]
  simp only [mem_filter, FileSystemAccessMode.canWrite_iff, Option.map_eq_none_iff]
  constructor
  · rintro none path isEntry ⟨name, isName, isPrefix⟩
    have unguarded := none ⟨path, .write⟩ ⟨isEntry, rfl⟩
    rw [guardedName_eq_some_iff.mpr ⟨isName, isPrefix⟩] at unguarded
    exact nomatch unguarded
  · rintro none ⟨path, access⟩ ⟨isEntry, rfl⟩
    cases guarded : guardedName target ⟨path, .write⟩ with
    | none => rfl
    | some name => exact absurd ⟨name, guardedName_eq_some_iff.mp guarded⟩ (none path isEntry)

/-- A writable entry at the front that has the target is the one found. -/
theorem metadataChild_cons (entries : List ResolvedFileSystemEntry) {path : AbsolutePathBuf}
    (guards : Guards path target) :
    ∃ name, metadataChildOfWritableRoot (⟨path, .write⟩ :: entries) target =
        some (path ++ [name], name) := by
  obtain ⟨name, isName, isPrefix⟩ := guards
  have guarded : guardedName target ⟨path, .write⟩ = some name :=
    guardedName_eq_some_iff.mpr ⟨isName, isPrefix⟩
  refine ⟨name, ?_⟩
  simp [metadataChildOfWritableRoot, FileSystemAccessMode.canWrite, guarded]

theorem hasExplicitWriteEntry_iff {protectedMetadataPath : AbsolutePathBuf} :
    hasExplicitWriteEntryForMetadataPath entries protectedMetadataPath target = true ↔
      ∃ path, ⟨path, .write⟩ ∈ entries ∧ path <+: target ∧ protectedMetadataPath <+: path := by
  simp only [hasExplicitWriteEntryForMetadataPath, any_eq_true,
    Bool.and_eq_true, FileSystemAccessMode.canWrite_iff, startsWith_iff]
  constructor
  · rintro ⟨⟨path, access⟩, isEntry, ⟨rfl, above⟩, below⟩
    exact ⟨path, isEntry, above, below⟩
  · rintro ⟨path, isEntry, above, below⟩
    exact ⟨⟨path, .write⟩, isEntry, ⟨rfl, above⟩, below⟩

variable {pos : AbsolutePathBuf}

/--
A writable target is refused exactly if the first writable entry that has it
in a metadata child is at the path that governs it: any other such entry lies
above, and the governing entry then opens its metadata child.
-/
theorem metadataWriteDenied_iff (governs : Governs (Named entries) pos target)
    (writes : strongest entries pos = .write) :
    metadataWriteDenied entries target = true ↔ ∃ name, metadataChildOfWritableRoot entries target =
          some (pos ++ [name], name) := by
  unfold metadataWriteDenied
  cases found : metadataChildOfWritableRoot entries target with
  | none => simp
  | some child =>
    obtain ⟨path, isEntry, isChild, -, isPrefix⟩ := exists_of_metadataChild found
    have above : path <+: pos := governs.longest ((prefix_append _ _).trans isPrefix)
        (named_of_mem isEntry)
    rw [isChild]
    simp only [Bool.not_eq_true', Option.some.injEq]
    by_cases same : path = pos
    · subst same
      refine iff_of_true ?_ ⟨child.2, rfl⟩
      rw [Bool.eq_false_iff, Ne, hasExplicitWriteEntry_iff]
      rintro ⟨other, isOther, otherPrefix, below⟩
      have short := governs.longest otherPrefix (named_of_mem isOther)
      exact absurd (below.trans short).length_le (by simp)
    · refine iff_of_false ?_ ?_
      · rw [Bool.not_eq_false, hasExplicitWriteEntry_iff]
        exact ⟨pos, (strongest_eq_write_iff.mp writes).1, governs.isPrefix,
          child_prefix isPrefix governs.isPrefix above same⟩
      · rintro ⟨name, equal⟩
        have := congrArg (fun pair => pair.1.dropLast) equal
        exact same (by simpa using this)

theorem metadataWriteDenied_child {name : String}
    (governs : Governs (Named entries) pos target)
    (writes : strongest entries pos = .write) (below : pos ++ [name] <+: target) :
    metadataWriteDenied entries (pos ++ [name]) = metadataWriteDenied entries target := by
  have governsChild : Governs (Named entries) pos (pos ++ [name]) :=
    governs.between (prefix_append _ _) below
  have sameChild : metadataChildOfWritableRoot entries (pos ++ [name]) =
        metadataChildOfWritableRoot entries target := by
    unfold metadataChildOfWritableRoot
    refine congrArg List.head? (filterMap_congr fun entry mem => ?_)
    rw [mem_filter] at mem
    refine congrArg _ (Option.ext fun found => ?_)
    rw [guardedName_eq_some_iff, guardedName_eq_some_iff]
    refine and_congr_right fun _ => ⟨fun isPrefix => isPrefix.trans below, fun isPrefix => ?_⟩
    have above : entry.path <+: pos :=
      governs.longest ((prefix_append _ _).trans isPrefix) ⟨entry, mem.1, rfl⟩
    refine prefix_of_prefix_length_le isPrefix below ?_
    simpa using above.length_le
  rw [Bool.eq_iff_iff, metadataWriteDenied_iff governsChild writes,
    metadataWriteDenied_iff governs writes, sameChild]

/-- Outside the metadata children of the governing path nothing is refused. -/
theorem metadataWriteDenied_of_not_guards (governs : Governs (Named entries) pos target)
    (writes : strongest entries pos = .write) (outside : ¬ Guards pos target) :
    metadataWriteDenied entries target = false := by
  rw [Bool.eq_false_iff, Ne, metadataWriteDenied_iff governs writes]
  rintro ⟨name, found⟩
  obtain ⟨path, -, isChild, isName, isPrefix⟩ := exists_of_metadataChild found
  obtain rfl : pos = path := by
    have := congrArg (fun pair => pair.1.dropLast) isChild
    simpa using this
  exact outside ⟨name, isName, isPrefix⟩

end Metadata

/-! ## Full-disk access -/

def specialPathsShareTarget : FileSystemSpecialPath → FileSystemSpecialPath → Bool
  | .root, .root => true
  | .minimal, .minimal => true
  | .tmpdir, .tmpdir => true
  | .slashTmp, .slashTmp => true
  | .projectRoots left, .projectRoots right => left == right
  | .unknown left leftSubpath, .unknown right rightSubpath =>
    left == right && leftSubpath == rightSubpath
  | _, _ => false

def specialPathMatchesAbsolutePath (value : FileSystemSpecialPath)
    (path : AbsolutePathBuf) : Bool :=
  match value with
  | .root => path == []
  | .slashTmp => path == ["tmp"]
  | _ => false

def fileSystemPathsShareTarget : FileSystemPath → FileSystemPath → Bool
  | .path left, .path right => left == right
  | .special left, .special right => specialPathsShareTarget left right
  | .path path, .special value => specialPathMatchesAbsolutePath value path
  | .special value, .path path => specialPathMatchesAbsolutePath value path
  | .globPattern left, .globPattern right => left == right
  | .globPattern _, _ => false
  | _, .globPattern _ => false

namespace FileSystemSandboxPolicy

variable (policy : FileSystemSandboxPolicy)

def hasRootAccess (predicate : FileSystemAccessMode → Bool) : Bool := policy.kind == .restricted &&
    policy.entries.any fun entry => entry.path == .special .root && predicate entry.access

def hasDeniedReadRestrictions : Bool := policy.kind == .restricted &&
    policy.entries.any fun entry => entry.access == .deny

def hasSameTargetWriteOverride (entry : FileSystemSandboxEntry) : Bool :=
  policy.entries.any fun cand =>
    cand.access.canWrite && entry.access.rank < cand.access.rank &&
      fileSystemPathsShareTarget cand.path entry.path

/-- Whether an entry reduces a broader write grant. -/
def narrowsWrite (entry : FileSystemSandboxEntry) : Bool :=
  if entry.access.canWrite then false
  else
    match entry.path with
    | .path _ => !policy.hasSameTargetWriteOverride entry
    | .globPattern _ => true
    | .special .root => entry.access == .deny
    | .special .minimal => false
    | .special (.unknown _ _) => false
    | .special _ => !policy.hasSameTargetWriteOverride entry

def hasWriteNarrowingEntries : Bool :=
  policy.kind == .restricted && policy.entries.any policy.narrowsWrite

def hasFullDiskReadAccess : Bool :=
  match policy.kind with
  | .unrestricted | .externalSandbox => true
  | .restricted =>
    policy.hasRootAccess FileSystemAccessMode.canRead && !policy.hasDeniedReadRestrictions

def hasFullDiskWriteAccess : Bool :=
  match policy.kind with
  | .unrestricted | .externalSandbox => true
  | .restricted =>
    policy.hasRootAccess FileSystemAccessMode.canWrite && !policy.hasWriteNarrowingEntries

/-! ## Decisions -/

variable (host : Host) (path : Path) (cwd : AbsolutePathBuf)

def resolveAccessWithCwd : FileSystemAccessMode :=
  match policy.kind with
  | .unrestricted | .externalSandbox => .write
  | .restricted =>
    accessIn (policy.resolvedEntriesWithCwd host cwd) (resolveCandidatePath host cwd path)

def canReadPathWithCwd : Bool := (policy.resolveAccessWithCwd host path cwd).canRead

def isMetadataWriteDenied : Bool :=
  if policy.kind == .restricted then
    metadataWriteDenied (policy.resolvedEntriesWithCwd host cwd)
      (resolveCandidatePath host cwd path)
  else false

def canWritePathWithCwd : Bool :=
  if !(policy.resolveAccessWithCwd host path cwd).canWrite then false
  else if policy.hasFullDiskWriteAccess then true
  else !policy.isMetadataWriteDenied host path cwd

theorem resolveAccess_of_restricted (isRestricted : policy.kind = .restricted) :
    policy.resolveAccessWithCwd host path cwd =
      accessIn (policy.resolvedEntriesWithCwd host cwd) (resolveCandidatePath host cwd path) := by
  rw [resolveAccessWithCwd, isRestricted]

end FileSystemSandboxPolicy

/-! ## Absolute paths -/

section Absolute

variable {policy : FileSystemSandboxPolicy} {host : Host} {cwd : AbsolutePathBuf} {path : Path}
  (isAbsolute : path.isAbsolute = true)
include isAbsolute

theorem resolveCandidatePath_of_isAbsolute : resolveCandidatePath host cwd path =
      normalizeFrom [] path.components := by
  rw [resolveCandidatePath, if_pos isAbsolute]

theorem canRead_of_isAbsolute : policy.canReadPathWithCwd host path cwd =
      policy.canReadPathWithCwd host (asPath (normalizeFrom [] path.components)) cwd := by
  simp only [FileSystemSandboxPolicy.canReadPathWithCwd,
    FileSystemSandboxPolicy.resolveAccessWithCwd, resolveCandidatePath_asPath,
    resolveCandidatePath_of_isAbsolute isAbsolute]

theorem canWrite_of_isAbsolute : policy.canWritePathWithCwd host path cwd =
      policy.canWritePathWithCwd host (asPath (normalizeFrom [] path.components)) cwd := by
  simp only [FileSystemSandboxPolicy.canWritePathWithCwd,
    FileSystemSandboxPolicy.isMetadataWriteDenied,
    FileSystemSandboxPolicy.resolveAccessWithCwd, resolveCandidatePath_asPath,
    resolveCandidatePath_of_isAbsolute isAbsolute]

end Absolute

end Codex.Sandbox.Permissions
