import Codex.Library.FirstOccurrences
import Codex.Sandbox.Permissions

/-!
# Additional permissions

The model of the overlay that `sandboxing/src/policy_transforms.rs` merges
into a policy: a profile of extra entries is appended to the entries of a
restricted policy.  The extra entries compete with the old ones by how
specific they are, so that an extra read entry below a writable root takes
writes away.  The main result says exactly when nothing is taken away.
-/

namespace Codex.Sandbox.AdditionalPermissions

open Library.FirstOccurrences Library.LongestPrefix Paths Permissions

/-! ## Profiles -/

/-- `FileSystemPermissions`; a depth that is given is not zero. -/
structure FileSystemPermissions where
  entries : List FileSystemSandboxEntry
  globScanMaxDepth : Option Nat
deriving DecidableEq

def FileSystemPermissions.isEmpty (permissions : FileSystemPermissions) : Bool :=
  permissions.entries.isEmpty

structure NetworkPermissions where
  enabled : Option Bool
deriving DecidableEq

structure AdditionalPermissionProfile where
  network : Option NetworkPermissions
  fileSystem : Option FileSystemPermissions
deriving DecidableEq

/-! ## Scan depths -/

inductive GlobScanDepth where
  | bounded (depth : Nat)
  | unbounded
deriving DecidableEq

def effectiveGlobScanDepth (entries : List FileSystemSandboxEntry) (depth : Option Nat) :
    Option GlobScanDepth :=
  let hasDenyGlob := entries.any fun entry =>
    entry.access == .deny &&
      match entry.path with
      | .globPattern _ => true
      | _ => false
  if hasDenyGlob then
    some (match depth with
      | some depth => .bounded depth
      | none => .unbounded)
  else none

def mergeGlobScanMaxDepth (leftEntries : List FileSystemSandboxEntry) (leftDepth : Option Nat)
    (rightEntries : List FileSystemSandboxEntry) (rightDepth : Option Nat) : Option Nat :=
  match effectiveGlobScanDepth leftEntries leftDepth,
    effectiveGlobScanDepth rightEntries rightDepth with
  | some .unbounded, _ => none
  | _, some .unbounded => none
  | some (.bounded left), some (.bounded right) => some (max left right)
  | some (.bounded depth), none => some depth
  | none, some (.bounded depth) => some depth
  | none, none => none

variable (policy : FileSystemSandboxPolicy)

/-! ## Merging -/

def mergeFileSystemPolicyWithAdditionalPermissions
    (permissions : FileSystemPermissions) : FileSystemSandboxPolicy :=
  match policy.kind with
  | .restricted =>
    { policy with
      entries := permissions.entries.foldl pushMissing policy.entries
      globScanMaxDepth := mergeGlobScanMaxDepth policy.entries policy.globScanMaxDepth
          permissions.entries permissions.globScanMaxDepth }
  | .unrestricted | .externalSandbox => policy

def effectiveFileSystemSandboxPolicy
    (additionalPermissions : Option AdditionalPermissionProfile) : FileSystemSandboxPolicy :=
  match additionalPermissions with
  | none => policy
  | some additionalPermissions =>
    match additionalPermissions.fileSystem with
    | none => policy
    | some permissions =>
      if permissions.isEmpty then policy
      else mergeFileSystemPolicyWithAdditionalPermissions policy permissions

variable (profile : AdditionalPermissionProfile)

def fileSystemEntries : List FileSystemSandboxEntry :=
  (profile.fileSystem.map FileSystemPermissions.entries).getD []

variable {policy : FileSystemSandboxPolicy}

theorem kind_effective (isRestricted : policy.kind = .restricted) :
    (effectiveFileSystemSandboxPolicy policy (some profile)).kind = .restricted := by
  obtain ⟨kind, depth, entries⟩ := policy
  obtain ⟨network, fileSystem⟩ := profile
  subst isRestricted
  cases fileSystem with
  | none => rfl
  | some permissions =>
    simp only [effectiveFileSystemSandboxPolicy, mergeFileSystemPolicyWithAdditionalPermissions]
    split <;> rfl

variable {profile : AdditionalPermissionProfile}

theorem mem_entries_effective_iff (isRestricted : policy.kind = .restricted)
    {entry : FileSystemSandboxEntry} :
    entry ∈ (effectiveFileSystemSandboxPolicy policy (some profile)).entries ↔
      entry ∈ policy.entries ∨ entry ∈ fileSystemEntries profile := by
  obtain ⟨kind, depth, entries⟩ := policy
  obtain ⟨network, fileSystem⟩ := profile
  subst isRestricted
  cases fileSystem with
  | none => simp [effectiveFileSystemSandboxPolicy, fileSystemEntries]
  | some permissions =>
    simp only [effectiveFileSystemSandboxPolicy,
      mergeFileSystemPolicyWithAdditionalPermissions, fileSystemEntries,
      Option.map_some, Option.getD_some]
    split
    next empty =>
      have none : permissions.entries = [] := List.isEmpty_iff.mp empty
      simp [none]
    next => exact mem_foldl_pushMissing_iff

/-! ## Comparing accesses -/

/-- How much an access allows. -/
def allowance : FileSystemAccessMode → Nat
  | .deny => 0
  | .read => 1
  | .write => 2

variable {access : FileSystemAccessMode}

theorem eq_write_of_allowance (full : allowance .write ≤ allowance access) : access = .write := by
  cases access <;> simp_all [allowance]

theorem one_le_allowance (allowed : access ≠ .deny) : allowance .read ≤ allowance access := by
  cases access <;> simp_all [allowance]

theorem allowance_le_write (access : FileSystemAccessMode) :
    allowance access ≤ allowance .write := by
  cases access <;> simp [allowance]

section Merged

variable {base added merged : List ResolvedFileSystemEntry}

/-- What an entry list must contain to merge two others. -/
structure Merges
    (base added merged : List ResolvedFileSystemEntry) : Prop where
  mem_iff : ∀ entry, entry ∈ merged ↔ entry ∈ base ∨ entry ∈ added
  noDeny : ∀ path, ⟨path, .deny⟩ ∉ added

variable (merges : Merges base added merged)
include merges

theorem Merges.named {path : AbsolutePathBuf} (named : Named base path) : Named merged path := by
  obtain ⟨entry, mem, atPath⟩ := named
  exact ⟨entry, (merges.mem_iff _).mpr (.inl mem), atPath⟩

/-- Where the old entries decided, the merged ones allow as much. -/
theorem allowance_strongest_le (pos : AbsolutePathBuf) : allowance (strongest base pos) ≤
      allowance (strongest merged pos) := by
  have deny_iff : ⟨pos, .deny⟩ ∈ merged ↔ ⟨pos, .deny⟩ ∈ base := by
    rw [merges.mem_iff]
    exact or_iff_left (merges.noDeny pos)
  cases found : strongest base pos with
  | deny => exact Nat.zero_le _
  | write =>
    obtain ⟨written, notDenied⟩ := strongest_eq_write_iff.mp found
    rw [strongest_eq_write_iff.mpr
      ⟨(merges.mem_iff _).mpr (.inl written), mt deny_iff.mp notDenied⟩]
  | read =>
    refine one_le_allowance fun denied => ?_
    rw [strongest_eq_deny_iff, deny_iff, ← strongest_eq_deny_iff, found] at denied
    exact nomatch denied

/-- At a path that only the added entries name, at least reads are allowed. -/
theorem strongest_ne_deny_of_unnamed {pos : AbsolutePathBuf}
    (unnamed : ¬ Named base pos) : strongest merged pos ≠ .deny := by
  rw [Ne, strongest_eq_deny_iff, merges.mem_iff]
  rintro (inBase | inAdded)
  · exact unnamed (named_of_mem inBase)
  · exact merges.noDeny pos inAdded

/--
Merging takes nothing away exactly if every added read entry lies where writes
were not allowed, or next to a write entry for the same path.
-/
theorem allowance_le_merged_iff : (∀ target, allowance (accessIn base target) ≤
      allowance (accessIn merged target)) ↔
    ∀ path, ⟨path, .read⟩ ∈ added → accessIn base path ≠ .write ∨ ⟨path, .write⟩ ∈ merged := by
  constructor
  · intro keeps path isRead
    refine or_iff_not_imp_left.mpr fun writes => ?_
    rw [not_not] at writes
    have stillWrites := eq_write_of_allowance (writes ▸ keeps path)
    have named : Named merged path := named_of_mem ((merges.mem_iff _).mpr (.inr isRead))
    rw [accessIn_of_named named] at stillWrites
    exact (strongest_eq_write_iff.mp stillWrites).1
  · intro condition target
    by_cases denied : accessIn base target = .deny
    · rw [denied]
      exact Nat.zero_le _
    obtain ⟨old, governsOld⟩ := governs_of_accessIn denied
    obtain ⟨pos, governs⟩ := exists_governs governsOld.isPrefix (merges.named governsOld.isNamed)
    have below : old <+: pos :=
      governs.longest governsOld.isPrefix (merges.named governsOld.isNamed)
    rw [accessIn_of_governs governs]
    by_cases named : Named base pos
    · -- The old entries still decide.
      have above : pos <+: old := governsOld.longest governs.isPrefix named
      rw [accessIn_of_governs governsOld, ← prefix_antisymm above below]
      exact allowance_strongest_le merges pos
    · -- Only added entries are at the governing path.
      have notDenied := strongest_ne_deny_of_unnamed merges named
      cases access : accessIn base target with
      | deny => exact absurd access denied
      | read => exact one_le_allowance notDenied
      | write =>
        have writesHere : accessIn base pos = .write :=
          (accessIn_between governsOld below governs.isPrefix).trans access
        cases strong : strongest merged pos with
        | deny => exact absurd strong notDenied
        | write => exact le_rfl
        | read =>
          have isRead := mem_read_of_strongest governs.isNamed strong
          have isAdded : ⟨pos, .read⟩ ∈ added := by
            rcases (merges.mem_iff _).mp isRead with inBase | inAdded
            · exact absurd (named_of_mem inBase) named
            · exact inAdded
          rcases condition pos isAdded with notWrite | written
          · exact absurd writesHere notWrite
          · exact absurd written (not_written_of_strongest strong)

end Merged

/-! ## The effective policy -/

theorem merges_effective
    (host : Host) (cwd : AbsolutePathBuf) (isRestricted : policy.kind = .restricted)
    (grants : ∀ entry ∈ fileSystemEntries profile, entry.access ≠ .deny) :
    Merges (policy.resolvedEntriesWithCwd host cwd)
      (resolveEntries host cwd (fileSystemEntries profile))
      ((effectiveFileSystemSandboxPolicy policy
        (some profile)).resolvedEntriesWithCwd host cwd) where
  mem_iff := by
    rintro ⟨path, access⟩
    simp only [FileSystemSandboxPolicy.resolvedEntriesWithCwd,
      mem_resolveEntries_iff, mem_entries_effective_iff isRestricted,
      or_and_right, exists_or]
  noDeny := by
    intro path denied
    obtain ⟨entry, mem, -, isDeny⟩ := (mem_resolveEntries_iff host cwd).mp denied
    exact grants entry mem isDeny

/--
Additional permissions that only read and write take no access away exactly if
each added read entry resolves to a path that the policy does not let be
written, or that some write entry also names.
-/
theorem additional_permissions_keep_access_iff (policy : FileSystemSandboxPolicy)
    (profile : AdditionalPermissionProfile)
    (host : Host) (cwd : AbsolutePathBuf)
    (isRestricted : policy.kind = .restricted)
    (grants : ∀ entry ∈ fileSystemEntries profile, entry.access ≠ .deny) :
    (∀ path : Path, path.isAbsolute = true →
      allowance (policy.resolveAccessWithCwd host path cwd) ≤ allowance
          ((effectiveFileSystemSandboxPolicy policy
            (some profile)).resolveAccessWithCwd host path cwd)) ↔
      ∀ entry ∈ fileSystemEntries profile, entry.access = .read →
        ∀ path, resolveEntryPath host cwd entry.path = some path →
          policy.resolveAccessWithCwd host (asPath path) cwd ≠ .write ∨
            ∃ other ∈ policy.entries ++ fileSystemEntries profile, other.access = .write ∧
                resolveEntryPath host cwd other.path = some path := by
  have merges := merges_effective host cwd isRestricted grants
  simp only [policy.resolveAccess_of_restricted host _ cwd isRestricted,
    FileSystemSandboxPolicy.resolveAccess_of_restricted _ host _ cwd
      (kind_effective profile isRestricted)]
  refine Iff.trans ⟨fun keeps target => ?_, fun keeps path _ => keeps _⟩
    ((allowance_le_merged_iff merges).trans ?_)
  · simpa using keeps (asPath target) rfl
  simp only [resolveCandidatePath_asPath, mem_resolveEntries_iff,
    FileSystemSandboxPolicy.resolvedEntriesWithCwd,
    mem_entries_effective_iff isRestricted, List.mem_append]
  constructor
  · intro condition entry mem isRead path resolves
    refine (condition path ⟨entry, mem, resolves, isRead⟩).imp_right ?_
    exact fun ⟨other, isMember, sameTarget, writes⟩ => ⟨other, isMember, writes, sameTarget⟩
  · rintro condition path ⟨entry, mem, resolves, isRead⟩
    refine (condition entry mem isRead path resolves).imp_right ?_
    exact fun ⟨other, isMember, writes, sameTarget⟩ => ⟨other, isMember, sameTarget, writes⟩

def readProfile (path : AbsolutePathBuf) : AdditionalPermissionProfile :=
  ⟨none, some ⟨[⟨.path path, .read⟩], none⟩⟩

/-- Reading outside a writable workspace is added without any loss. -/
theorem added_read_keeps_workspace_access :
    let policy : FileSystemSandboxPolicy :=
      .restricted [⟨.path ["w"], .write⟩]
    policy.kind = .restricted ∧ ∀ path : Path, path.isAbsolute = true →
        allowance (policy.resolveAccessWithCwd bareHost path ["w"]) ≤ allowance
            ((effectiveFileSystemSandboxPolicy policy
              (some (readProfile ["docs"]))).resolveAccessWithCwd bareHost path ["w"]) := by
  refine ⟨rfl, (additional_permissions_keep_access_iff
    (.restricted [⟨.path ["w"], .write⟩]) (readProfile ["docs"])
    bareHost ["w"] rfl (by decide)).mpr ?_⟩
  intro entry mem isRead path resolves
  obtain rfl : entry = ⟨.path ["docs"], .read⟩ := by
    simpa [fileSystemEntries, readProfile] using mem
  obtain rfl : ["docs"] = path := Option.some.inj resolves
  exact .inl (by decide +kernel)

/-- Granting a read below a writable root takes the writes there away. -/
theorem added_read_takes_writes_away :
    let policy : FileSystemSandboxPolicy :=
      .restricted [⟨.path ["w"], .write⟩]
    let path := asPath ["w", "sub", "x"]
    policy.resolveAccessWithCwd bareHost path ["w"] = .write ∧
      (effectiveFileSystemSandboxPolicy policy
        (some (readProfile ["w", "sub"]))).resolveAccessWithCwd bareHost path ["w"] = .read := by
  decide +kernel

end Codex.Sandbox.AdditionalPermissions
