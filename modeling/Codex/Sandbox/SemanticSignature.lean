import Codex.Sandbox.PolicyRoots

/-!
# The signature of a policy

The model of `semantic_signature` and of the comparison with the legacy
policy in `protocol/src/permissions.rs`.  Two policies with one signature are
taken to give the same access, and a policy with the signature of its legacy
form is left to the legacy sandbox.
-/

namespace Codex.Sandbox.SemanticSignature

open Library.FirstOccurrences Library.LongestPrefix Paths Permissions
  PolicyRoots

/-! ## Signatures -/

structure FileSystemSemanticSignature where
  hasFullDiskReadAccess : Bool
  hasFullDiskWriteAccess : Bool
  includePlatformDefaults : Bool
  readableRoots : List AbsolutePathBuf
  writableRoots : List WritableRoot
  unreadableRoots : List AbsolutePathBuf
  unreadableGlobs : List String
deriving DecidableEq

def sortedAbsolutePaths (paths : List AbsolutePathBuf) : List AbsolutePathBuf :=
  paths.insertionSort (· ≤ ·)

def WritableRoot.sorted (writable : WritableRoot) : WritableRoot where
  root := writable.root
  readOnlySubpaths := sortedAbsolutePaths writable.readOnlySubpaths
  protectedMetadataNames := dropRepeats (writable.protectedMetadataNames.insertionSort (· ≤ ·))

def sortedWritableRoots (roots : List WritableRoot) : List WritableRoot :=
  (roots.map WritableRoot.sorted).insertionSort fun left right => left.root ≤ right.root

section Signature

variable (policy : FileSystemSandboxPolicy) (host : Host) (cwd : AbsolutePathBuf)

def semanticSignature : FileSystemSemanticSignature where
  hasFullDiskReadAccess := policy.hasFullDiskReadAccess
  hasFullDiskWriteAccess := policy.hasFullDiskWriteAccess
  includePlatformDefaults := includePlatformDefaults policy
  readableRoots := sortedAbsolutePaths (getReadableRootsWithCwd policy host cwd)
  writableRoots := sortedWritableRoots (getWritableRootsWithCwd policy host cwd)
  unreadableRoots := sortedAbsolutePaths (getUnreadableRootsWithCwd policy host cwd)
  unreadableGlobs := getUnreadableGlobsWithCwd policy host cwd

def isSemanticallyEquivalentTo (other : FileSystemSandboxPolicy) : Bool :=
  semanticSignature policy host cwd == semanticSignature other host cwd

end Signature

/-! ## Legacy policies -/

inductive NetworkSandboxPolicy where
  | restricted
  | enabled
deriving DecidableEq

def NetworkSandboxPolicy.isEnabled : NetworkSandboxPolicy → Bool
  | .enabled => true
  | .restricted => false

/-- `SandboxPolicy`; every network access is a flag. -/
inductive SandboxPolicy where
  | dangerFullAccess
  | readOnly (networkAccess : Bool)
  | externalSandbox (networkAccess : Bool)
  | workspaceWrite (writableRoots : List AbsolutePathBuf)
      (networkAccess excludeTmpdirEnvVar excludeSlashTmp : Bool)
deriving DecidableEq

section Legacy

variable (host : Host) (cwd : AbsolutePathBuf)

def SandboxPolicy.getWritableRootsWithCwd : SandboxPolicy → List WritableRoot
  | .dangerFullAccess | .externalSandbox _ | .readOnly _ => []
  | .workspaceWrite writableRoots _ excludeTmpdirEnvVar excludeSlashTmp =>
    let slashTmp := if !excludeSlashTmp && host.isDirectory ["tmp"] then [["tmp"]] else []
    let tmpdir :=
      if excludeTmpdirEnvVar then []
      else (host.tmpdir.bind (fromAbsolutePath host.homeDirectory host.currentDirectory)).toList
    (writableRoots ++ [cwd] ++ slashTmp ++ tmpdir).map fun root =>
      { root := root
        readOnlySubpaths := defaultReadOnlySubpathsForWritableRoot host root (cwd == root)
        protectedMetadataNames := [] }

/-- What the loop of `to_legacy_sandbox_policy` collects. -/
structure LegacyGrants where
  workspaceRootWritable : Bool := false
  writableRoots : List AbsolutePathBuf := []
  tmpdirWritable : Bool := false
  slashTmpWritable : Bool := false
  unbridgeableRootWrite : Bool := false

def collectGrant (grants : LegacyGrants) (entry : FileSystemSandboxEntry) : LegacyGrants :=
  if !entry.access.canWrite then grants
  else
    match entry.path with
    | .globPattern _ => grants
    | .path path =>
      if cwd == path then { grants with workspaceRootWritable := true }
      else { grants with writableRoots := grants.writableRoots ++ [path] }
    | .special .root => { grants with unbridgeableRootWrite := true }
    | .special .minimal => grants
    | .special (.projectRoots none) => { grants with workspaceRootWritable := true }
    | .special (.projectRoots subpath) =>
      match resolveFileSystemSpecialPath host cwd (.projectRoots subpath) with
      | some path => { grants with writableRoots := grants.writableRoots ++ [path] }
      | none => grants
    | .special .tmpdir => { grants with tmpdirWritable := true }
    | .special .slashTmp => { grants with slashTmpWritable := true }
    | .special (.unknown _ _) => grants

/-- The error of `to_legacy_sandbox_policy`. -/
def outsideWorkspaceError : String :=
  "permissions profile requests filesystem writes outside the workspace " ++
    "root, which is not supported until the runtime enforces " ++
    "FileSystemSandboxPolicy directly"

variable (policy : FileSystemSandboxPolicy) (network : NetworkSandboxPolicy)

def toLegacySandboxPolicy : Except String SandboxPolicy :=
  let everything :=
    if network.isEnabled then SandboxPolicy.dangerFullAccess
    else .externalSandbox false
  match policy.kind with
  | .externalSandbox => .ok (.externalSandbox network.isEnabled)
  | .unrestricted => .ok everything
  | .restricted =>
    let grants := policy.entries.foldl (collectGrant host cwd) {}
    if policy.hasFullDiskWriteAccess then .ok everything
    else if grants.workspaceRootWritable then
      .ok (.workspaceWrite (dedupAbsolutePaths grants.writableRoots)
        network.isEnabled (!grants.tmpdirWritable) (!grants.slashTmpWritable))
    else if grants.unbridgeableRootWrite || !grants.writableRoots.isEmpty ||
        grants.tmpdirWritable || grants.slashTmpWritable then
      .error outsideWorkspaceError
    else .ok (.readOnly network.isEnabled)

def appendDefaultReadOnlyPath (entries : List FileSystemSandboxEntry)
    (path : AbsolutePathBuf) : List FileSystemSandboxEntry :=
  if entries.any fun entry => fileSystemPathsShareTarget entry.path (.path path) then entries
  else entries ++ [⟨.path path, .read⟩]

def legacyRuntimeFileSystemPolicyForCwd : SandboxPolicy → FileSystemSandboxPolicy
  | .dangerFullAccess => ⟨.unrestricted, none, []⟩
  | .externalSandbox _ => ⟨.externalSandbox, none, []⟩
  | .readOnly _ => .restricted [⟨.special .root, .read⟩]
  | .workspaceWrite writableRoots _ excludeTmpdirEnvVar excludeSlashTmp =>
    let entries : List FileSystemSandboxEntry :=
      [⟨.special .root, .read⟩, ⟨.special (.projectRoots none), .write⟩] ++
      (if excludeSlashTmp then [] else [⟨.special .slashTmp, .write⟩]) ++
      (if excludeTmpdirEnvVar then [] else [⟨.special .tmpdir, .write⟩]) ++
      writableRoots.map fun path => ⟨.path path, .write⟩
    let readOnly :=
      defaultReadOnlySubpathsForWritableRoot host cwd true ++ writableRoots.flatMap fun root =>
          defaultReadOnlySubpathsForWritableRoot host root false
    .restricted (readOnly.foldl appendDefaultReadOnlyPath entries)

def protectedMetadataNamesNeedDirectRuntimeEnforcement (legacy : SandboxPolicy) : Bool :=
  let legacyRoots := legacy.getWritableRootsWithCwd host cwd
  (getWritableRootsWithCwd policy host cwd).any fun writable =>
    match legacyRoots.find? (·.root == writable.root) with
    | none => !writable.protectedMetadataNames.isEmpty
    | some legacyRoot =>
      writable.protectedMetadataNames.any fun name =>
        !legacyRoot.readOnlySubpaths.any fun subpath => subpath == writable.root ++ [name]

def needsDirectRuntimeEnforcement : Bool :=
  if policy.kind != .restricted then false
  else
    match toLegacySandboxPolicy host cwd policy network with
    | .error _ => true
    | .ok legacy =>
      protectedMetadataNamesNeedDirectRuntimeEnforcement host cwd policy legacy ||
        semanticSignature policy host cwd !=
          semanticSignature (legacyRuntimeFileSystemPolicyForCwd host cwd legacy) host cwd

end Legacy

end Codex.Sandbox.SemanticSignature
