import Codex.Sandbox.AdditionalPermissions
import Codex.Sandbox.PolicyRoots

/-!
# Intersecting a grant with a request

The model of `intersect_permission_profiles` in
`sandboxing/src/policy_transforms.rs`.  A granted entry is accepted by looking
at the request at the root of the entry only; the deny entries of both sides
that touch an accepted entry are carried over, and nothing else is.
-/

namespace Codex.Sandbox.PermissionIntersection

open Library.FirstOccurrences Library.LongestPrefix Paths Permissions List
  PolicyRoots AdditionalPermissions FileSystemSandboxPolicy

/-! ## Denied reads -/

/-- `ReadDenyMatcher`; a path has one spelling without symbolic links. -/
structure ReadDenyMatcher where
  deniedCandidates : List AbsolutePathBuf
  denyReadMatchers : List (AbsolutePathBuf → Bool)
  invalidPattern : Bool

def ReadDenyMatcher.new (policy : FileSystemSandboxPolicy) (host : Host)
    (cwd : AbsolutePathBuf) : Option ReadDenyMatcher :=
  if !policy.hasDeniedReadRestrictions then none
  else
    let compiled := (getUnreadableGlobsWithCwd policy host cwd).map host.buildGlobMatcher
    some
      { deniedCandidates := getUnreadableRootsWithCwd policy host cwd
        denyReadMatchers := compiled.filterMap id
        invalidPattern := compiled.any Option.isNone }

def ReadDenyMatcher.isReadDenied (matcher : ReadDenyMatcher) (path : AbsolutePathBuf) : Bool :=
  if matcher.invalidPattern then true
  else if matcher.deniedCandidates.any fun denied =>
      path == denied || startsWith path denied then true
  else matcher.denyReadMatchers.any fun isMatch => isMatch path

/-! ## The intersection -/

def accessCovers (requested granted : FileSystemAccessMode) : Bool :=
  match granted with
  | .read => requested.canRead
  | .write => requested.canWrite
  | .deny => false

def pathsOverlap (left right : AbsolutePathBuf) : Bool :=
  startsWith left right || startsWith right left

section Intersection

variable (host : Host) (cwd : AbsolutePathBuf)

def resolvePermissionPath : FileSystemPath → Option AbsolutePathBuf
  | .path path => some path
  | .globPattern _ => none
  | .special .root => some []
  | .special (.projectRoots (some subpath)) =>
    some (resolvePathAgainstBase host.homeDirectory subpath cwd)
  | .special (.projectRoots none) => some cwd
  | .special .tmpdir => host.tmpdir.bind (fromAbsolutePath host.homeDirectory host.currentDirectory)
  | .special .slashTmp => if host.isDirectory ["tmp"] then some ["tmp"] else none
  | .special .minimal => none
  | .special (.unknown _ _) => none

def materializeCwdDependentEntry (entry : FileSystemSandboxEntry) : FileSystemSandboxEntry :=
  match entry.path with
  | .special (.projectRoots _) =>
    match resolvePermissionPath host cwd entry.path with
    | some path => ⟨.path path, entry.access⟩
    | none => entry
  | .globPattern pattern =>
    ⟨.globPattern (toText (resolvePathAgainstBase host.homeDirectory
      (parsePath pattern) cwd)), entry.access⟩
  | .path _ => entry
  | .special _ => entry

def grantedFileSystemEntryWithinRequest (requested : FileSystemPermissions)
    (requestedPolicy : FileSystemSandboxPolicy) (requestedReadDenyMatcher : Option ReadDenyMatcher)
    (grantedEntry : FileSystemSandboxEntry) : Bool :=
  if !grantedEntry.access.canRead then false
  else
    match resolvePermissionPath host cwd grantedEntry.path with
    | some path =>
      if requestedReadDenyMatcher.any fun matcher => matcher.isReadDenied path then false
      else
        accessCovers (requestedPolicy.resolveAccessWithCwd host (asPath path) cwd)
          grantedEntry.access
    | none =>
      requested.entries.any fun requestedEntry =>
        accessCovers requestedEntry.access grantedEntry.access &&
          requestedEntry.path == grantedEntry.path

def isGlobCharacter (char : Char) : Bool := char == '*' || char == '?' || char == '[' || char == ']'

def globStaticPrefixPath (pattern : String) : Option AbsolutePathBuf :=
  let resolved :=
    (toText (resolvePathAgainstBase host.homeDirectory (parsePath pattern) cwd)).toList
  let fixed := resolved.takeWhile fun char => !isGlobCharacter char
  let path (text : List Char) : AbsolutePathBuf :=
    normalizeFrom [] (parsePath (String.ofList text)).components
  if fixed.length = resolved.length then some (path resolved)
  else if fixed.isEmpty then none
  else if fixed.getLast? == some '/' || fixed.getLast? == some '\\' then some (path fixed)
  else
    -- The parent of the last, partly fixed component.
    some (path fixed).dropLast

def denyEntryConstrainsAcceptedGrant (denyEntry : FileSystemSandboxEntry)
    (acceptedEntries : List FileSystemSandboxEntry) : Bool :=
  (acceptedEntries.filter fun entry => entry.access.canRead).any fun entry =>
    match resolvePermissionPath host cwd entry.path with
    | none => false
    | some grantPath =>
      match denyEntry.path with
      | .globPattern pattern =>
        (globStaticPrefixPath host cwd pattern).any fun fixed => pathsOverlap fixed grantPath
      | path =>
        (resolvePermissionPath host cwd path).any fun denyPath => pathsOverlap denyPath grantPath

/-- The entries that `retain_constraining_deny_entries` returns. -/
def retainedDenyEntries (sourceEntries acceptedEntries : List FileSystemSandboxEntry) :
    List FileSystemSandboxEntry :=
  ((sourceEntries.filter fun entry => entry.access == .deny).filter
    fun entry => denyEntryConstrainsAcceptedGrant host cwd entry
      acceptedEntries).map (materializeCwdDependentEntry host cwd)

variable (requested granted : FileSystemPermissions)

/-- The granted entries that the request covers. -/
def acceptedEntries : List FileSystemSandboxEntry :=
  let requestedPolicy : FileSystemSandboxPolicy := .restricted requested.entries
  firstOccurrences ((granted.entries.filter
      (grantedFileSystemEntryWithinRequest host cwd requested requestedPolicy
        (ReadDenyMatcher.new requestedPolicy host cwd))).map
          (materializeCwdDependentEntry host cwd))

def intersectFileSystem : FileSystemPermissions :=
  let accepted := acceptedEntries host cwd requested granted
  let requestedRetained := retainedDenyEntries host cwd requested.entries accepted
  let grantedRetained := retainedDenyEntries host cwd granted.entries accepted
  { globScanMaxDepth :=
      (mergeGlobScanMaxDepth requestedRetained requested.globScanMaxDepth
        grantedRetained granted.globScanMaxDepth).filter (· != 0)
    entries :=
      grantedRetained.foldl pushMissing
        (requestedRetained.foldl pushMissing accepted) }

def intersectPermissionProfiles (requested granted : AdditionalPermissionProfile) :
    AdditionalPermissionProfile :=
  { fileSystem :=
      (requested.fileSystem.map fun requestedFileSystem =>
        intersectFileSystem host cwd requestedFileSystem
          (granted.fileSystem.getD ⟨[], none⟩)).filter
            fun fileSystem => !fileSystem.isEmpty
    network :=
      match requested.network, granted.network with
      | some ⟨some true⟩, some ⟨some true⟩ => some ⟨some true⟩
      | _, _ => none }

end Intersection

/-! ## The entries of the result -/

/-- Neither side of an intersection has glob entries. -/
def NoGlobs (entries : List FileSystemSandboxEntry) : Prop :=
  ∀ entry ∈ entries, ∀ pattern, entry.path ≠ .globPattern pattern

theorem resolvePermissionPath_eq (host : Host) (cwd : AbsolutePathBuf) (path : FileSystemPath) :
    resolvePermissionPath host cwd path = resolveEntryPath host cwd path := by
  cases path with
  | path | globPattern => rfl
  | special value =>
    cases value with
    | projectRoots subpath => cases subpath <;> rfl
    | _ => rfl

theorem resolveEntry_materialize
    (host : Host) (cwd : AbsolutePathBuf) (entry : FileSystemSandboxEntry) :
    resolveEntry host cwd (materializeCwdDependentEntry host cwd entry) =
      resolveEntry host cwd entry := by
  obtain ⟨path, access⟩ := entry
  cases path with
  | path | globPattern => rfl
  | special value =>
    cases value with
    | projectRoots subpath => cases subpath <;> rfl
    | _ => rfl

variable (requested granted : List ResolvedFileSystemEntry) (path : AbsolutePathBuf)

/--
The granted accesses that an intersection accepts: the request covers them at
their own path, and no denied root of the request lies above.
-/
def Accepts (access : FileSystemAccessMode) : Prop :=
  ⟨path, access⟩ ∈ granted ∧ access ≠ .deny ∧ (∀ denied, ⟨denied, .deny⟩ ∈ requested → denied ≠ [] →
      ¬ denied <+: path) ∧
    accessCovers (accessIn requested path) access = true

/-- A deny entry of one of the two sides. -/
def DeniedByEither : Prop := ⟨path, .deny⟩ ∈ requested ∨ ⟨path, .deny⟩ ∈ granted

/-- What an entry list must contain to be an intersection. -/
structure Intersects
    (requested granted result : List ResolvedFileSystemEntry) : Prop where
  mem_iff : ∀ path access, ⟨path, access⟩ ∈ result ↔ Accepts requested granted path access ∨
      (access = .deny ∧ DeniedByEither requested granted path ∧
        ∃ accepted allowed, Accepts requested granted accepted allowed ∧
          (path <+: accepted ∨ accepted <+: path))

/--
A write grant that the request covers, a read entry of the request below it,
and between the two nothing that the intersection keeps.
-/
def Leaks : Prop := ∃ wide narrow,
    Accepts requested granted wide .write ∧
    ⟨narrow, .read⟩ ∈ requested ∧ accessIn requested narrow = .read ∧
    wide <+: narrow ∧
    ∀ middle, wide <+: middle → middle <+: narrow → ¬ DeniedByEither requested granted middle ∧
        (middle ≠ wide → ⟨middle, .read⟩ ∉ granted)

/-! ## Bounds -/

section Bounds

variable {requested granted result : List ResolvedFileSystemEntry}
  {access : FileSystemAccessMode} {path : AbsolutePathBuf}

theorem Accepts.not_denied
    (accepted : Accepts requested granted path access) : accessIn requested path ≠ .deny := by
  obtain ⟨-, allowed, -, covers⟩ := accepted
  cases access with
  | read => simpa [accessCovers] using covers
  | write =>
    have writes : accessIn requested path = .write := by simpa [accessCovers] using covers
    rw [writes]
    decide
  | deny => exact absurd rfl allowed

theorem Accepts.allowance_le (accepted : Accepts requested granted path access) :
    allowance access ≤ allowance (accessIn requested path) := by
  obtain ⟨-, allowed, -, covers⟩ := accepted
  cases access with
  | read => exact one_le_allowance (by simpa [accessCovers] using covers)
  | write => rw [show accessIn requested path = .write by simpa [accessCovers] using covers]
  | deny => exact absurd rfl allowed

variable (intersects : Intersects requested granted result)
include intersects

theorem accepted_of_governs {pos target : AbsolutePathBuf}
    (governs : Governs (Named result) pos target)
    (allowed : strongest result pos ≠ .deny) :
    Accepts requested granted pos (strongest result pos) ∧
      ∀ middle, pos <+: middle → middle <+: target →
        ¬ DeniedByEither requested granted middle := by
  have accepted : Accepts requested granted pos (strongest result pos) := by
    rcases (intersects.mem_iff _ _).mp (strongest_mem governs.isNamed) with accepted | ⟨denied, -⟩
    · exact accepted
    · exact absurd denied allowed
  refine ⟨accepted, fun middle above below denied => ?_⟩
  -- A deny below an accepted entry is kept, and would govern instead.
  have kept : ⟨middle, .deny⟩ ∈ result := (intersects.mem_iff _ _).mpr
      (.inr ⟨rfl, denied, pos, _, accepted, .inr above⟩)
  have same : middle = pos := prefix_antisymm (governs.longest below (named_of_mem kept)) above
  subst same
  exact allowed (strongest_eq_deny_iff.mpr kept)

omit intersects in
theorem accepts_read_below {pos middle : AbsolutePathBuf}
    (accepted : Accepts requested granted pos access)
    (below : pos <+: middle) (isRead : ⟨middle, .read⟩ ∈ granted)
    (noDeny : ∀ path, pos <+: path → path <+: middle →
      ¬ DeniedByEither requested granted path) :
    Accepts requested granted middle .read := by
  refine ⟨isRead, by decide, fun denied isDeny notRoot above => ?_, ?_⟩
  · rcases prefix_or_prefix_of_prefix above below with higher | lower
    · exact accepted.2.2.1 denied isDeny notRoot higher
    · exact noDeny denied lower above (.inl isDeny)
  · rw [accessCovers, FileSystemAccessMode.canRead_iff]
    intro isDenied
    obtain ⟨old, governsOld⟩ := governs_of_accessIn accepted.not_denied
    obtain ⟨new, governs⟩ := exists_governs (governsOld.isPrefix.trans below) governsOld.isNamed
    rcases prefix_or_prefix_of_prefix governs.isPrefix below with
      higher | lower
    · -- The request decides both paths by the same entry.
      have same := accessIn_between governs higher below
      exact accepted.not_denied (same.trans isDenied)
    · rw [accessIn_of_governs governs, strongest_eq_deny_iff] at isDenied
      exact noDeny new lower governs.isPrefix (.inl isDenied)

theorem allowance_le_granted (target : AbsolutePathBuf) : allowance (accessIn result target) ≤
      allowance (accessIn granted target) := by
  by_cases denied : accessIn result target = .deny
  · rw [denied]
    exact Nat.zero_le _
  obtain ⟨pos, governs⟩ := governs_of_accessIn denied
  rw [accessIn_of_governs governs] at denied ⊢
  obtain ⟨accepted, noDeny⟩ := accepted_of_governs intersects governs denied
  obtain ⟨deepest, governsGranted⟩ := exists_governs governs.isPrefix (named_of_mem accepted.1)
  have below : pos <+: deepest := governsGranted.longest governs.isPrefix (named_of_mem accepted.1)
  rw [accessIn_of_governs governsGranted]
  have notDenied : strongest granted deepest ≠ .deny := fun isDenied =>
    noDeny deepest below governsGranted.isPrefix (.inr (strongest_eq_deny_iff.mp isDenied))
  cases found : strongest granted deepest with
  | deny => exact absurd found notDenied
  | write => exact allowance_le_write _
  | read =>
    have isRead := mem_read_of_strongest governsGranted.isNamed found
    have acceptedRead := accepts_read_below accepted below isRead fun path above lower =>
        noDeny path above (lower.trans governsGranted.isPrefix)
    have kept : ⟨deepest, .read⟩ ∈ result := (intersects.mem_iff _ _).mpr (.inl acceptedRead)
    have same : deepest = pos := prefix_antisymm
        (governs.longest governsGranted.isPrefix (named_of_mem kept)) below
    subst same
    -- The accepted access is one that was granted at this very path.
    cases access : strongest result deepest with
    | deny => exact absurd access denied
    | read => exact le_rfl
    | write =>
      rw [access] at accepted
      exact absurd accepted.1 (not_written_of_strongest found)

theorem allowance_le_requested_iff : (∀ target, allowance (accessIn result target) ≤
      allowance (accessIn requested target)) ↔
      ¬ Leaks requested granted := by
  constructor
  · rintro bounded ⟨wide, narrow, accepted, -, reads, below, clear⟩
    have kept : ⟨wide, .write⟩ ∈ result := (intersects.mem_iff _ _).mpr (.inl accepted)
    obtain ⟨pos, governs⟩ := exists_governs below (named_of_mem kept)
    have above : wide <+: pos := governs.longest below (named_of_mem kept)
    obtain ⟨noDeny, noRead⟩ := clear pos above governs.isPrefix
    have writes : strongest result pos = .write := by
      cases found : strongest result pos with
      | write => rfl
      | deny =>
        rcases (intersects.mem_iff _ _).mp
          (strongest_eq_deny_iff.mp found) with isAccepted | ⟨-, denied, -⟩
        · exact absurd rfl isAccepted.2.1
        · exact absurd denied noDeny
      | read =>
        have isRead := mem_read_of_strongest governs.isNamed found
        rcases (intersects.mem_iff _ _).mp isRead with
          isAccepted | ⟨isDeny, -⟩
        · by_cases same : pos = wide
          · exact absurd (same ▸ kept) (not_written_of_strongest found)
          · exact absurd isAccepted.1 (noRead same)
        · exact nomatch isDeny
    have exceeded := bounded narrow
    rw [accessIn_of_governs governs, writes, reads] at exceeded
    exact absurd exceeded (by decide)
  · intro sealed target
    by_cases denied : accessIn result target = .deny
    · rw [denied]
      exact Nat.zero_le _
    obtain ⟨pos, governs⟩ := governs_of_accessIn denied
    rw [accessIn_of_governs governs] at denied ⊢
    obtain ⟨accepted, noDeny⟩ := accepted_of_governs intersects governs denied
    obtain ⟨old, governsOld⟩ := governs_of_accessIn accepted.not_denied
    obtain ⟨deepest, governsRequested⟩ :=
      exists_governs (governsOld.isPrefix.trans governs.isPrefix) governsOld.isNamed
    rcases prefix_or_prefix_of_prefix governsRequested.isPrefix
      governs.isPrefix with higher | lower
    · rw [← accessIn_between governsRequested higher governs.isPrefix]
      exact accepted.allowance_le
    · rw [accessIn_of_governs governsRequested]
      cases found : strongest requested deepest with
      | deny =>
        exact absurd (.inl (strongest_eq_deny_iff.mp found))
          (noDeny deepest lower governsRequested.isPrefix)
      | write => exact allowance_le_write _
      | read =>
        cases access : strongest result pos with
        | deny => exact absurd access denied
        | read => exact le_rfl
        | write =>
          rw [access] at accepted
          refine absurd ⟨pos, deepest, accepted,
            mem_read_of_strongest governsRequested.isNamed found,
            (accessIn_of_named governsRequested.isNamed).trans found, lower,
            fun middle above below => ?_⟩ sealed
          have inside := below.trans governsRequested.isPrefix
          refine ⟨noDeny middle above inside, fun distinct isRead => ?_⟩
          have acceptedRead := accepts_read_below accepted above isRead fun path start stop =>
              noDeny path start (stop.trans inside)
          have kept : ⟨middle, .read⟩ ∈ result := (intersects.mem_iff _ _).mpr (.inl acceptedRead)
          exact distinct (prefix_antisymm (governs.longest inside (named_of_mem kept)) above)

end Bounds

variable {entries : List FileSystemSandboxEntry}

/-! ## The profiles -/

section Profiles

variable (host : Host) (cwd : AbsolutePathBuf) {access : FileSystemAccessMode}
  {path : AbsolutePathBuf} {entry : FileSystemSandboxEntry}

theorem resolveEntry_eq_some_iff : resolveEntry host cwd entry = some ⟨path, access⟩ ↔
      resolvePermissionPath host cwd entry.path = some path ∧ entry.access = access := by
  rw [resolvePermissionPath_eq]
  simp [resolveEntry]

theorem unreadableGlobs_of_noGlobs (noGlobs : NoGlobs entries) :
    getUnreadableGlobsWithCwd (.restricted entries) host cwd = [] := by
  unfold getUnreadableGlobsWithCwd
  have none : ((restricted entries).entries.filter
        fun entry => entry.access == .deny).filterMap (resolvedPattern host cwd) = [] := by
    rw [filterMap_eq_nil_iff]
    intro entry mem
    have isEntry : entry ∈ entries := (mem_filter.mp mem).1
    unfold resolvedPattern
    split
    next pattern found => exact absurd found (noGlobs entry isEntry pattern)
    · rfl
    · rfl
  rw [none]
  rfl

theorem isReadDenied_iff (noGlobs : NoGlobs entries) (path : AbsolutePathBuf) :
    ((ReadDenyMatcher.new (.restricted entries) host cwd).any fun matcher =>
        matcher.isReadDenied path) = true ↔
      ∃ denied, ⟨denied, .deny⟩ ∈ resolveEntries host cwd entries ∧
        denied ≠ [] ∧ denied <+: path := by
  unfold ReadDenyMatcher.new
  split
  next unrestricted =>
    simp only [Option.any_none, Bool.false_eq_true, false_iff]
    rintro ⟨denied, mem, -⟩
    obtain ⟨entry, isEntry, -, isDeny⟩ := (mem_resolveEntries_iff host cwd).mp mem
    simp only [hasDeniedReadRestrictions, restricted, beq_self_eq_true, Bool.true_and,
      Bool.not_eq_true', any_eq_false] at unrestricted
    exact unrestricted entry isEntry (by simp [isDeny])
  next =>
    simp only [Option.any_some, unreadableGlobs_of_noGlobs host cwd noGlobs,
      map_nil, filterMap_nil, any_nil,
      ReadDenyMatcher.isReadDenied, Bool.false_eq_true, if_false]
    rw [Bool.ite_eq_true_distrib]
    simp only [if_true_left, Bool.false_eq_true, imp_false, not_not,
      any_eq_true, Bool.or_eq_true, beq_iff_eq, startsWith_iff]
    constructor
    · rintro ⟨denied, mem, above⟩
      obtain ⟨isDeny, notRoot⟩ := (mem_unreadableRoots_iff rfl).mp mem
      refine ⟨denied, isDeny, notRoot, ?_⟩
      rcases above with rfl | above
      · exact prefix_rfl
      · exact above
    · rintro ⟨denied, isDeny, notRoot, above⟩
      exact ⟨denied, (mem_unreadableRoots_iff rfl).mpr ⟨isDeny, notRoot⟩, .inr above⟩

variable {requested granted : FileSystemPermissions}

/-- The test of a granted entry, in terms of what it resolves to. -/
theorem withinRequest_iff (noGlobs : NoGlobs requested.entries)
    (resolves : resolveEntry host cwd entry = some ⟨path, access⟩)
    (isGranted : ⟨path, access⟩ ∈ resolveEntries host cwd granted.entries) :
    grantedFileSystemEntryWithinRequest host cwd requested (.restricted requested.entries)
        (ReadDenyMatcher.new (.restricted requested.entries) host cwd)
        entry = true ↔
      Accepts (resolveEntries host cwd requested.entries)
        (resolveEntries host cwd granted.entries) path access := by
  obtain ⟨samePath, rfl⟩ := (resolveEntry_eq_some_iff host cwd).mp resolves
  have sameAccess : (restricted requested.entries).resolveAccessWithCwd host (asPath path) cwd =
        accessIn (resolveEntries host cwd requested.entries) path :=
    resolveAccess_asPath rfl path
  have readDenied := isReadDenied_iff host cwd noGlobs path
  unfold grantedFileSystemEntryWithinRequest Accepts
  rw [samePath]
  simp only [sameAccess]
  constructor
  · intro within
    split at within
    · exact nomatch within
    next readable =>
      split at within
      · exact nomatch within
      next notDenied =>
        refine ⟨isGranted, by simpa using readable,
          fun denied isDeny notRoot above => notDenied ?_, within⟩
        exact readDenied.mpr ⟨denied, isDeny, notRoot, above⟩
  · rintro ⟨-, readable, notDenied, covers⟩
    rw [if_neg (by simpa using readable), if_neg ?_]
    · exact covers
    · intro denied
      obtain ⟨root, isDeny, notRoot, above⟩ := readDenied.mp denied
      exact notDenied root isDeny notRoot above

theorem exists_accepted_iff (noGlobs : NoGlobs requested.entries) :
    (∃ entry ∈ acceptedEntries host cwd requested granted,
      resolveEntry host cwd entry = some ⟨path, access⟩) ↔
      Accepts (resolveEntries host cwd requested.entries)
        (resolveEntries host cwd granted.entries) path access := by
  simp only [acceptedEntries, mem_firstOccurrences_iff, mem_map, mem_filter]
  constructor
  · rintro ⟨_, ⟨entry, ⟨mem, within⟩, rfl⟩, resolves⟩
    rw [resolveEntry_materialize] at resolves
    exact (withinRequest_iff host cwd noGlobs resolves
      (mem_filterMap.mpr ⟨entry, mem, resolves⟩)).mp within
  · intro accepted
    obtain ⟨entry, mem, resolves⟩ := mem_filterMap.mp accepted.1
    exact ⟨_, ⟨entry, ⟨mem, (withinRequest_iff host cwd noGlobs resolves
      accepted.1).mpr accepted⟩, rfl⟩,
      (resolveEntry_materialize host cwd entry).trans resolves⟩

theorem accepted_canRead (mem : entry ∈ acceptedEntries host cwd requested granted) :
    entry.access.canRead = true := by
  simp only [acceptedEntries, mem_firstOccurrences_iff, mem_map, mem_filter] at mem
  obtain ⟨source, ⟨-, within⟩, rfl⟩ := mem
  have kept : (materializeCwdDependentEntry host cwd source).access = source.access := by
    unfold materializeCwdDependentEntry
    split
    · split <;> rfl
    all_goals rfl
  rw [kept]
  unfold grantedFileSystemEntryWithinRequest at within
  split at within
  · cases within
  next readable => simpa using readable

theorem constrains_iff (noGlob : ∀ pattern, entry.path ≠ .globPattern pattern)
    (samePath : resolvePermissionPath host cwd entry.path = some path)
    (accepted : List FileSystemSandboxEntry) :
    denyEntryConstrainsAcceptedGrant host cwd entry accepted = true ↔
      ∃ other, (other ∈ accepted ∧ other.access.canRead = true) ∧
        ∃ grantPath, resolvePermissionPath host cwd other.path = some grantPath ∧
          (path <+: grantPath ∨ grantPath <+: path) := by
  simp only [denyEntryConstrainsAcceptedGrant, any_eq_true, mem_filter]
  refine exists_congr fun other => and_congr_right fun _ => ?_
  cases resolvePermissionPath host cwd other.path with
  | none => simp
  | some grantPath =>
    cases shape : entry.path with
    | globPattern pattern => exact absurd shape (noGlob pattern)
    | path _ | special _ =>
      rw [shape] at samePath
      simp [samePath, pathsOverlap, or_comm]

/-- The deny entries carried over are those that touch an accepted entry. -/
theorem exists_retained_iff (noGlobs : NoGlobs requested.entries)
    {source : List FileSystemSandboxEntry} (sourceNoGlobs : NoGlobs source) :
    (∃ entry ∈ retainedDenyEntries host cwd source (acceptedEntries host cwd requested granted),
      resolveEntry host cwd entry = some ⟨path, access⟩) ↔
      access = .deny ∧ ⟨path, .deny⟩ ∈ resolveEntries host cwd source ∧ ∃ accepted allowed,
          Accepts (resolveEntries host cwd requested.entries)
            (resolveEntries host cwd granted.entries) accepted allowed ∧
          (path <+: accepted ∨ accepted <+: path) := by
  simp only [retainedDenyEntries, mem_map, mem_filter, beq_iff_eq]
  constructor
  · rintro ⟨_, ⟨entry, ⟨⟨mem, isDeny⟩, constrains⟩, rfl⟩, resolves⟩
    rw [resolveEntry_materialize] at resolves
    obtain ⟨samePath, rfl⟩ := (resolveEntry_eq_some_iff host cwd).mp resolves
    obtain ⟨other, ⟨isOther, -⟩, accepted, found, touches⟩ :=
      (constrains_iff host cwd (sourceNoGlobs entry mem) samePath _).mp constrains
    rw [isDeny] at resolves
    exact ⟨isDeny, mem_filterMap.mpr ⟨entry, mem, resolves⟩, accepted, other.access,
      (exists_accepted_iff host cwd noGlobs).mp
        ⟨other, isOther, (resolveEntry_eq_some_iff host cwd).mpr ⟨found, rfl⟩⟩, touches⟩
  · rintro ⟨rfl, isDeny, accepted, allowed, isAccepted, touches⟩
    obtain ⟨entry, mem, resolves⟩ := mem_filterMap.mp isDeny
    obtain ⟨samePath, sameAccess⟩ := (resolveEntry_eq_some_iff host cwd).mp resolves
    obtain ⟨other, isOther, found⟩ := (exists_accepted_iff host cwd noGlobs).mpr isAccepted
    have constrains := (constrains_iff host cwd (sourceNoGlobs entry mem) samePath _).mpr
      ⟨other, ⟨isOther, accepted_canRead host cwd isOther⟩, accepted,
        ((resolveEntry_eq_some_iff host cwd).mp found).1, touches⟩
    exact ⟨_, ⟨entry, ⟨⟨mem, sameAccess⟩, constrains⟩, rfl⟩,
      (resolveEntry_materialize host cwd entry).trans resolves⟩

end Profiles

theorem intersects_fileSystem (host : Host) (cwd : AbsolutePathBuf)
    {requested granted : FileSystemPermissions} (requestedNoGlobs : NoGlobs requested.entries)
    (grantedNoGlobs : NoGlobs granted.entries) :
    Intersects (resolveEntries host cwd requested.entries) (resolveEntries host cwd granted.entries)
      (resolveEntries host cwd (intersectFileSystem host cwd requested granted).entries) where
  mem_iff := by
    intro path access
    have split : ∀ entry, entry ∈ (intersectFileSystem host cwd requested granted).entries ↔
          (entry ∈ acceptedEntries host cwd requested granted ∨
            entry ∈ retainedDenyEntries host cwd requested.entries
              (acceptedEntries host cwd requested granted)) ∨
          entry ∈ retainedDenyEntries host cwd granted.entries
            (acceptedEntries host cwd requested granted) := by
      intro entry
      simp only [intersectFileSystem, mem_foldl_pushMissing_iff]
    unfold resolveEntries
    rw [mem_filterMap]
    simp only [split, or_and_right, exists_or]
    rw [exists_accepted_iff host cwd requestedNoGlobs,
      exists_retained_iff host cwd requestedNoGlobs requestedNoGlobs,
      exists_retained_iff host cwd requestedNoGlobs grantedNoGlobs,
      or_assoc]
    rw [← and_or_left, ← or_and_right]
    rfl

theorem intersects_profiles (host : Host) (cwd : AbsolutePathBuf)
    {requested granted : AdditionalPermissionProfile}
    (requestedNoGlobs : NoGlobs (fileSystemEntries requested))
    (grantedNoGlobs : NoGlobs (fileSystemEntries granted)) :
    Intersects (resolveEntries host cwd (fileSystemEntries requested))
      (resolveEntries host cwd (fileSystemEntries granted))
      (resolveEntries host cwd (fileSystemEntries
          (intersectPermissionProfiles host cwd requested granted))) := by
  obtain ⟨requestedNetwork, requestedFileSystem⟩ := requested
  obtain ⟨grantedNetwork, grantedFileSystem⟩ := granted
  cases requestedFileSystem with
  | none =>
    -- Nothing was requested: nothing is accepted, and nothing denied.
    refine ⟨fun path access => iff_of_false (fun mem => nomatch mem) ?_⟩
    have nothing : ∀ path access, ¬ Accepts (resolveEntries host cwd
          (fileSystemEntries ⟨requestedNetwork, none⟩))
          (resolveEntries host cwd (fileSystemEntries ⟨grantedNetwork, grantedFileSystem⟩))
          path access := fun path access accepted =>
      accepted.not_denied rfl
    rintro (accepted | ⟨-, -, path, allowed, accepted, -⟩)
    all_goals exact nothing _ _ accepted
  | some requestedFileSystem =>
    have sameGranted : fileSystemEntries ⟨grantedNetwork, grantedFileSystem⟩ =
          (grantedFileSystem.getD ⟨[], none⟩).entries := by
      cases grantedFileSystem <;> rfl
    have sameResult : fileSystemEntries (intersectPermissionProfiles host cwd
              ⟨requestedNetwork, some requestedFileSystem⟩
              ⟨grantedNetwork, grantedFileSystem⟩) =
          (intersectFileSystem host cwd requestedFileSystem
            (grantedFileSystem.getD ⟨[], none⟩)).entries := by
      simp only [intersectPermissionProfiles, fileSystemEntries,
        Option.map_some, Option.filter_some]
      split
      · rfl
      next empty =>
        have none : (intersectFileSystem host cwd requestedFileSystem
            (grantedFileSystem.getD ⟨[], none⟩)).entries = [] := by
          simpa [FileSystemPermissions.isEmpty] using empty
        rw [none]
        rfl
    rw [sameResult, sameGranted]
    exact intersects_fileSystem host cwd requestedNoGlobs (sameGranted ▸ grantedNoGlobs)

/--
The intersection of a grant with a request stays within both at every
absolute path exactly if the pair does not leak.
-/
theorem intersection_within_both_iff (requested granted : AdditionalPermissionProfile)
    (host : Host) (cwd : AbsolutePathBuf)
    (requestedNoGlobs : NoGlobs (fileSystemEntries requested))
    (grantedNoGlobs : NoGlobs (fileSystemEntries granted)) :
    (∀ path : Path, path.isAbsolute = true →
      let allowed (entries : List FileSystemSandboxEntry) :=
        allowance ((FileSystemSandboxPolicy.restricted entries).resolveAccessWithCwd host path cwd)
      let result :=
        fileSystemEntries
          (intersectPermissionProfiles host cwd requested granted)
      allowed result ≤ allowed (fileSystemEntries requested) ∧
        allowed result ≤ allowed (fileSystemEntries granted)) ↔
      ¬ Leaks (resolveEntries host cwd (fileSystemEntries requested))
        (resolveEntries host cwd (fileSystemEntries granted)) := by
  have intersects := intersects_profiles host cwd requestedNoGlobs grantedNoGlobs
  rw [← allowance_le_requested_iff intersects]
  constructor
  · intro within target
    have bound := (within (asPath target) rfl).1
    simpa only [resolveAccessWithCwd, restricted, resolvedEntriesWithCwd,
      resolveCandidatePath_asPath] using bound
  · intro bounded path _
    exact ⟨bounded _, allowance_le_granted intersects _⟩

def profileOf (entries : List FileSystemSandboxEntry) : AdditionalPermissionProfile :=
  ⟨none, some ⟨entries, none⟩⟩

/-- A read grant inside a requested directory stays within both. -/
theorem read_grant_within_both :
    let requested := profileOf [⟨.path ["w"], .read⟩]
    let granted := profileOf [⟨.path ["w", "docs"], .read⟩]
    NoGlobs (fileSystemEntries requested) ∧ ∀ path : Path, path.isAbsolute = true →
        let allowed (entries : List FileSystemSandboxEntry) :=
          allowance ((FileSystemSandboxPolicy.restricted
            entries).resolveAccessWithCwd bareHost path ["w"])
        let result :=
          fileSystemEntries (intersectPermissionProfiles bareHost ["w"] requested granted)
        allowed result ≤ allowed (fileSystemEntries requested) ∧
          allowed result ≤ allowed (fileSystemEntries granted) := by
  have requestedNoGlobs : NoGlobs (fileSystemEntries (profileOf [⟨.path ["w"], .read⟩])) := by
    simp [NoGlobs, fileSystemEntries, profileOf]
  have grantedNoGlobs : NoGlobs (fileSystemEntries (profileOf [⟨.path ["w", "docs"], .read⟩])) := by
    simp [NoGlobs, fileSystemEntries, profileOf]
  refine ⟨requestedNoGlobs, (intersection_within_both_iff _ _ bareHost ["w"] requestedNoGlobs
      grantedNoGlobs).mpr ?_⟩
  rintro ⟨wide, narrow, ⟨isGranted, -⟩, -⟩
  have onlyRead : resolveEntries bareHost ["w"]
        (fileSystemEntries (profileOf [⟨.path ["w", "docs"], .read⟩])) =
        [⟨["w", "docs"], .read⟩] := rfl
  rw [onlyRead] at isGranted
  simp at isGranted

/--
The request wants a workspace with one read-only directory; the intersection
with a grant of the whole workspace lets that directory be written.
-/
theorem intersection_exceeds_request :
    let requested :=
      profileOf [⟨.path ["w"], .write⟩, ⟨.path ["w", "sub"], .read⟩]
    let granted := profileOf [⟨.path ["w"], .write⟩]
    let access (entries : List FileSystemSandboxEntry) :=
      (FileSystemSandboxPolicy.restricted entries).resolveAccessWithCwd
        bareHost (asPath ["w", "sub", "x"]) ["w"]
    access (fileSystemEntries requested) = .read ∧ access (fileSystemEntries
        (intersectPermissionProfiles bareHost ["w"] requested granted)) =
          .write := by
  decide +kernel

end Codex.Sandbox.PermissionIntersection
