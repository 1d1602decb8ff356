import Codex.Sandbox.PolicyRoots

/-!
# Writable roots and single decisions

A sandbox is given the writable roots of a policy, each with the subpaths and
names that stay protected below it, and lets a path be written if one of the
roots does.  The policy itself judges a path by the entry that governs it.
-/

namespace Codex.Sandbox.WritableRootProjection

open Library.FirstOccurrences Library.LongestPrefix Paths Permissions List
  PolicyRoots

/-! ## The part of a path that roots judge -/

/-- The names in front of the first component that is none. -/
def leadingNames : List Component → AbsolutePathBuf
  | .normal name :: components => name :: leadingNames components
  | _ => []

variable {components : List Component}

theorem map_normal_isPrefixOf_iff {names : List String} :
    (names.map Component.normal).isPrefixOf components = true ↔
      names <+: leadingNames components := by
  induction names generalizing components with
  | nil => simp
  | cons name names ih =>
    cases components with
    | nil => simp [leadingNames]
    | cons first components =>
      cases first with
      | normal other => simp [leadingNames, List.isPrefixOf, ih, cons_prefix_cons]
      | curDir | parentDir => simp [leadingNames, List.isPrefixOf]

variable {path : Path} {base : AbsolutePathBuf}

theorem startsWith_iff_leadingNames (isAbsolute : path.isAbsolute = true) :
    path.startsWith base = true ↔ base <+: leadingNames path.components := by
  rw [Path.startsWith, isAbsolute, Bool.true_and, map_normal_isPrefixOf_iff]

variable {name : String}

/-- The component right behind a base, if it is a name. -/
theorem head_drop_eq_normal_iff (above : base <+: leadingNames components) :
    (components.drop base.length).head? = some (.normal name) ↔
      base ++ [name] <+: leadingNames components := by
  induction base generalizing components with
  | nil =>
    cases components with
    | nil => simp [leadingNames]
    | cons first components => cases first <;> simp [leadingNames, cons_prefix_cons, eq_comm]
  | cons step base ih =>
    cases components with
    | nil => simp [leadingNames] at above
    | cons first components =>
      cases first with
      | normal other =>
        rw [leadingNames, cons_prefix_cons] at above
        simp only [length_cons, drop_succ_cons, leadingNames,
          cons_append, cons_prefix_cons, above.1, true_and]
        exact ih above.2
      | curDir | parentDir => simp [leadingNames] at above

theorem text_eq_iff_of_protected {component : Component}
    (isName : name ∈ protectedMetadataPathNames) :
    component.text = name ↔ component = .normal name := by
  simp only [protectedMetadataPathNames, mem_cons, not_mem_nil, or_false] at isName
  rcases isName with rfl | rfl | rfl <;> cases component <;>
    simp [Component.text]

section Writable

variable {writable : WritableRoot} (isAbsolute : path.isAbsolute = true)
  (protectedNames : ∀ name ∈ writable.protectedMetadataNames, name ∈ protectedMetadataPathNames)
include isAbsolute protectedNames

theorem pathContainsProtectedMetadataName_iff
    (above : writable.root <+: leadingNames path.components) :
    writable.pathContainsProtectedMetadataName path = true ↔
      ∃ name ∈ writable.protectedMetadataNames,
        writable.root ++ [name] <+: leadingNames path.components := by
  have matched : ∀ name ∈ writable.protectedMetadataNames,
      ((path.components.drop writable.root.length).head? = some (.normal name) ↔
        writable.root ++ [name] <+: leadingNames path.components) :=
    fun name _ => head_drop_eq_normal_iff above
  rw [WritableRoot.pathContainsProtectedMetadataName,
    if_pos ((startsWith_iff_leadingNames isAbsolute).mpr above)]
  split
  · next empty =>
    simp only [empty, head?_nil, reduceCtorEq, false_iff] at matched
    simpa using matched
  · next first rest found =>
    simp only [found, head?_cons, Option.some.injEq] at matched
    simp only [any_eq_true, beq_iff_eq]
    refine exists_congr fun name => and_congr_right fun mem => ?_
    rw [text_eq_iff_of_protected (protectedNames name mem), matched name mem]

theorem isPathWritable_iff : writable.isPathWritable path = true ↔
    writable.root <+: leadingNames path.components ∧
      (∀ subpath ∈ writable.readOnlySubpaths, ¬ subpath <+: leadingNames path.components) ∧
      (∀ name ∈ writable.protectedMetadataNames,
        ¬ writable.root ++ [name] <+: leadingNames path.components) := by
  unfold WritableRoot.isPathWritable
  by_cases above : writable.root <+: leadingNames path.components
  · rw [(startsWith_iff_leadingNames isAbsolute).mpr above]
    simp only [Bool.not_true, Bool.false_eq_true, if_false, above, true_and]
    split_ifs with masked
    · simp only [any_eq_true, startsWith_iff_leadingNames isAbsolute] at masked
      obtain ⟨subpath, mem, below⟩ := masked
      simp only [false_iff, not_and]
      exact fun unmasked => absurd below (unmasked subpath mem)
    · simp only [any_eq_true, startsWith_iff_leadingNames isAbsolute, not_exists, not_and] at masked
      rw [Bool.not_eq_true', Bool.eq_false_iff, Ne,
        pathContainsProtectedMetadataName_iff isAbsolute protectedNames above]
      simp only [not_exists, not_and]
      exact (and_iff_right masked).symm
  · have outside : path.startsWith writable.root = false := by
      rw [Bool.eq_false_iff, Ne, startsWith_iff_leadingNames isAbsolute]
      exact above
    simp [outside, above]

end Writable

/-! ## What one root opens -/

/-- Of the writable entries, in their order, the first that has the target under metadata. -/
def FirstGuard (entries : List ResolvedFileSystemEntry) (pos target : AbsolutePathBuf) : Prop :=
  Guards pos target ∧ ∃ front entry back,
    entries.filter (fun entry => entry.access.canWrite) = front ++ entry :: back ∧
      entry.path = pos ∧ ∀ other ∈ front, ¬ Guards other.path target

/-- A root of the entries lets a target be written. -/
structure Reaches (host : Host) (cwd : AbsolutePathBuf)
    (entries : List ResolvedFileSystemEntry)
    (root target : AbsolutePathBuf) : Prop where
  isOpen : strongest entries root = .write
  isPrefix : root <+: target
  /-- No entry in between is closed. -/
  uncarved : ∀ path, Closed entries path → root <+: path → ¬ path <+: target
  /-- A metadata child in between has an entry, or nothing protects it. -/
  unprotected : ∀ name ∈ protectedMetadataPathNames,
    root ++ [name] <+: target → ¬ Named entries (root ++ [name]) →
      protectsByDefault host root (cwd == root) name = false ∧
        ¬ FirstGuard entries root (root ++ [name])

section Entries

variable {host : Host} {cwd : AbsolutePathBuf} {entries : List ResolvedFileSystemEntry}
  {root pos target : AbsolutePathBuf}

theorem guardedName_eq_none_iff {entry : ResolvedFileSystemEntry} :
    guardedName target entry = none ↔ ¬ Guards entry.path target := by
  simp only [Guards, ← guardedName_eq_some_iff, Option.eq_none_iff_forall_ne_some, not_exists]

/-- Where an open entry governs, the metadata rule refuses what it guards first. -/
theorem metadataWriteDenied_iff_firstGuard (governs : Governs (Named entries) pos target)
    (writes : strongest entries pos = .write) :
    metadataWriteDenied entries target = true ↔ FirstGuard entries pos target := by
  rw [metadataWriteDenied_iff governs writes]
  simp only [metadataChildOfWritableRoot, head?_filterMap, findSome?_eq_some_iff,
    Option.map_eq_some_iff, Option.map_eq_none_iff, guardedName_eq_none_iff, Prod.mk.injEq]
  constructor
  · rintro ⟨name, front, entry, back, split, ⟨_, guarded, child, rfl⟩, before⟩
    obtain rfl : entry.path = pos := (append_inj' child rfl).1
    exact ⟨⟨_, guardedName_eq_some_iff.mp guarded⟩, front, entry, back, split, rfl, before⟩
  · rintro ⟨⟨name, guarded⟩, front, entry, back, split, rfl, before⟩
    exact ⟨name, front, entry, back, split,
      ⟨name, guardedName_eq_some_iff.mpr guarded, rfl, rfl⟩, before⟩

theorem governs_child (named : Named entries root) (unnamed : ¬ Named entries (root ++ [name])) :
    Governs (Named entries) root (root ++ [name]) := by
  refine ⟨prefix_append _ _, named, fun {other} isPrefix isNamed => ?_⟩
  rcases prefix_concat_iff.mp isPrefix with rfl | above
  · exact absurd isNamed unnamed
  · exact above

theorem not_reaches_of_closed (governs : Governs (Named entries) pos target)
    (closed : strongest entries pos ≠ .write) : ¬ Reaches host cwd entries root target := by
  intro reaches
  have above := governs.longest reaches.isPrefix (named_of_strongest_eq_write reaches.isOpen)
  exact reaches.uncarved pos ⟨governs.isNamed, closed⟩ above governs.isPrefix

theorem reaches_governing_iff (governs : Governs (Named entries) pos target)
    (writes : strongest entries pos = .write) :
    Reaches host cwd entries pos target ↔ ¬ FirstGuard entries pos target ∧
        ∀ name ∈ protectedMetadataPathNames, pos ++ [name] <+: target →
          protectsByDefault host pos (cwd == pos) name = false := by
  have unnamed : ∀ name, pos ++ [name] <+: target → ¬ Named entries (pos ++ [name]) := by
    intro name below named
    exact absurd (governs.longest below named).length_le (by simp)
  have child : ∀ name, pos ++ [name] <+: target →
      (FirstGuard entries pos target ↔ FirstGuard entries pos (pos ++ [name])) := by
    intro name below
    rw [← metadataWriteDenied_iff_firstGuard governs writes, ← metadataWriteDenied_iff_firstGuard
      (governs.between (prefix_append _ _) below) writes,
      metadataWriteDenied_child governs writes below]
  constructor
  · intro reaches
    refine ⟨?_, fun name isName below =>
      (reaches.unprotected name isName below (unnamed name below)).1⟩
    intro guarded
    obtain ⟨name, isName, below⟩ := guarded.1
    exact (reaches.unprotected name isName below (unnamed name below)).2
      ((child name below).mp guarded)
  · rintro ⟨granted, unprotected⟩
    refine ⟨writes, governs.isPrefix, ?_, ?_⟩
    · rintro path ⟨named, closed⟩ above below
      obtain rfl := prefix_antisymm above (governs.longest below named)
      exact closed writes
    · intro name isName below _
      exact ⟨unprotected name isName below, fun guarded => granted ((child name below).mpr guarded)⟩

/-! ## Where roots and entries differ -/

/-- An open entry governs the target, and is not its first guard. -/
def Granted (entries : List ResolvedFileSystemEntry) (target : AbsolutePathBuf) : Prop :=
  ∃ pos, Governs (Named entries) pos target ∧ strongest entries pos = .write ∧
    ¬ FirstGuard entries pos target

/-- An open entry governs and guards the target, and another root opens it. -/
def Leaks (host : Host) (cwd : AbsolutePathBuf)
    (entries : List ResolvedFileSystemEntry)
    (target : AbsolutePathBuf) : Prop :=
  ∃ pos root, Governs (Named entries) pos target ∧ strongest entries pos = .write ∧
    FirstGuard entries pos target ∧ Reaches host cwd entries root target

/-- A target is granted, but a default of the governing root covers it and no other opens it. -/
def Overcloses (host : Host) (cwd : AbsolutePathBuf)
    (entries : List ResolvedFileSystemEntry)
    (target : AbsolutePathBuf) : Prop :=
  ∃ pos, Governs (Named entries) pos target ∧ strongest entries pos = .write ∧
    ¬ FirstGuard entries pos target ∧
    (∃ name ∈ protectedMetadataPathNames, pos ++ [name] <+: target ∧
      protectsByDefault host pos (cwd == pos) name = true) ∧
    ∀ root, root ≠ pos → ¬ Reaches host cwd entries root target

theorem Leaks.not_granted (leaks : Leaks host cwd entries target) : ¬ Granted entries target := by
  obtain ⟨pos, -, governs, -, guarded, -⟩ := leaks
  rintro ⟨other, otherGoverns, -, unguarded⟩
  exact unguarded (governs.unique otherGoverns ▸ guarded)

theorem Overcloses.granted (closed : Overcloses host cwd entries target) :
    Granted entries target := by
  obtain ⟨pos, governs, writes, unguarded, -⟩ := closed
  exact ⟨pos, governs, writes, unguarded⟩

theorem exists_reaches_iff : (∃ root, Reaches host cwd entries root target) ↔
    Granted entries target ∧ ¬ Overcloses host cwd entries target ∨
      Leaks host cwd entries target := by
  constructor
  · rintro ⟨root, reaches⟩
    obtain ⟨pos, governs⟩ | unnamed := exists_governs_or (Named entries) target
    · have writes : strongest entries pos = .write := by
        by_contra closed
        exact not_reaches_of_closed governs closed reaches
      by_cases guarded : FirstGuard entries pos target
      · exact .inr ⟨pos, root, governs, writes, guarded, reaches⟩
      · refine .inl ⟨⟨pos, governs, writes, guarded⟩, ?_⟩
        rintro ⟨other, otherGoverns, -, -, ⟨name, isName, below, isDefault⟩, alone⟩
        obtain rfl := governs.unique otherGoverns
        -- the root is the governing one, which its default closes
        obtain rfl : root = pos := by
          by_contra different
          exact alone root different reaches
        have isOpen := ((reaches_governing_iff governs writes).mp reaches).2 name isName below
        rw [isDefault] at isOpen
        cases isOpen
    · exact absurd (named_of_strongest_eq_write reaches.isOpen) (unnamed root reaches.isPrefix)
  · rintro (⟨⟨pos, governs, writes, unguarded⟩, notClosed⟩ | ⟨pos, root, -, -, -, reaches⟩)
    · by_contra! none
      refine notClosed ⟨pos, governs, writes, unguarded, ?_, fun root _ => none root⟩
      by_contra! plain
      refine none pos ((reaches_governing_iff governs writes).mpr ⟨unguarded, ?_⟩)
      exact fun name isName below => Bool.eq_false_iff.mpr (plain name isName below)
    · exact ⟨root, reaches⟩

end Entries

/-! ## The projection -/

section Projection

variable {policy : FileSystemSandboxPolicy} {host : Host} {cwd : AbsolutePathBuf}
  (isRestricted : policy.kind = .restricted) (limited : policy.hasFullDiskWriteAccess = false)
  (noPointers : ∀ root, pointedGitdir host root = none)
include isRestricted limited noPointers

/-- The lists of one writable root say what the root opens. -/
theorem reaches_iff_of_isOpen {root target : AbsolutePathBuf}
    (isOpen : strongest (policy.resolvedEntriesWithCwd host cwd) root = .write) :
    Reaches host cwd (policy.resolvedEntriesWithCwd host cwd) root target ↔ root <+: target ∧
      (∀ subpath ∈ readOnlySubpathsOf policy host cwd root, ¬ subpath <+: target) ∧
      (∀ name ∈ protectedMetadataPathNames,
        policy.canWritePathWithCwd host (asPath (root ++ [name])) cwd = false →
          ¬ root ++ [name] <+: target) := by
  have named := named_of_strongest_eq_write isOpen
  simp only [mem_readOnlySubpathsOf_iff isRestricted limited,
    mem_defaultReadOnlySubpaths_iff, noPointers, reduceCtorEq, or_false]
  constructor
  · intro reaches
    refine ⟨reaches.isPrefix, ?_, ?_⟩
    · rintro subpath (⟨⟨name, isName, rfl, isDefault⟩, unnamed⟩ | ⟨closed, above, -⟩) below
      · have := (reaches.unprotected name isName below unnamed).1
        rw [isDefault] at this
        exact nomatch this
      · exact reaches.uncarved subpath closed above below
    · intro name isName refused below
      rw [Bool.eq_false_iff] at refused
      by_cases isNamed : Named (policy.resolvedEntriesWithCwd host cwd) (root ++ [name])
      · rw [Ne, canWrite_of_named isRestricted limited isNamed] at refused
        exact reaches.uncarved _ ⟨isNamed, refused⟩ (prefix_append _ _) below
      · refine refused ((canWrite_asPath_iff isRestricted limited).mpr ?_)
        have governs := governs_child named isNamed
        rw [accessIn_of_governs governs, ← Bool.not_eq_true,
          metadataWriteDenied_iff_firstGuard governs isOpen]
        exact ⟨isOpen, (reaches.unprotected name isName below isNamed).2⟩
  · rintro ⟨isPrefix, unmasked, unprotected⟩
    refine ⟨isOpen, isPrefix, ?_, ?_⟩
    · intro path closed above
      refine unmasked path (.inr ⟨closed, above, ?_⟩)
      rintro rfl
      exact closed.2 isOpen
    · intro name isName below unnamed
      constructor
      · rw [Bool.eq_false_iff]
        exact fun isDefault => unmasked _ (.inl ⟨⟨name, isName, rfl, isDefault⟩, unnamed⟩) below
      · rw [← metadataWriteDenied_iff_firstGuard (governs_child named unnamed) isOpen]
        intro refused
        refine unprotected name isName ?_ below
        rw [Bool.eq_false_iff, Ne, canWrite_asPath_iff isRestricted limited, refused]
        exact fun granted => nomatch granted.2

theorem exists_isPathWritable_iff (isAbsolute : path.isAbsolute = true) :
    (∃ writable ∈ getWritableRootsWithCwd policy host cwd, writable.isPathWritable path = true) ↔
      ∃ root, Reaches host cwd (policy.resolvedEntriesWithCwd host cwd) root
        (leadingNames path.components) := by
  simp only [getWritableRootsWithCwd, limited, Bool.false_eq_true, if_false,
    dedupAbsolutePaths, mem_map, exists_exists_and_eq_and,
    mem_firstOccurrences_iff, mem_writableEntries_iff isRestricted limited]
  refine exists_congr fun root => ?_
  rw [isPathWritable_iff isAbsolute fun name mem => (mem_protectedMetadataNames_iff.mp mem).1]
  simp only [mem_protectedMetadataNames_iff, and_imp]
  constructor
  · rintro ⟨isOpen, opens⟩
    exact (reaches_iff_of_isOpen isRestricted limited noPointers isOpen).mpr opens
  · intro reaches
    exact ⟨reaches.isOpen, (reaches_iff_of_isOpen isRestricted limited
      noPointers reaches.isOpen).mp reaches⟩

omit noPointers in
/-- The policy lets a path be written if its entries grant it. -/
theorem canWrite_iff_granted (target : AbsolutePathBuf) :
    policy.canWritePathWithCwd host (asPath target) cwd = true ↔
      Granted (policy.resolvedEntriesWithCwd host cwd) target := by
  rw [canWrite_asPath_iff isRestricted limited]
  obtain ⟨pos, governs⟩ | unnamed :=
    exists_governs_or (Named (policy.resolvedEntriesWithCwd host cwd)) target
  · rw [accessIn_of_governs governs]
    constructor
    · rintro ⟨writes, granted⟩
      rw [← Bool.not_eq_true, metadataWriteDenied_iff_firstGuard governs writes] at granted
      exact ⟨pos, governs, writes, granted⟩
    · rintro ⟨other, otherGoverns, writes, unguarded⟩
      obtain rfl := governs.unique otherGoverns
      rw [← Bool.not_eq_true, metadataWriteDenied_iff_firstGuard governs writes]
      exact ⟨writes, unguarded⟩
  · rw [accessIn_of_unnamed unnamed]
    refine iff_of_false (fun granted => nomatch granted.1) ?_
    rintro ⟨pos, governs, -⟩
    exact unnamed pos governs.isPrefix governs.isNamed

end Projection

/--
The writable roots of a policy let an absolute path be written exactly when the
policy does, if and only if its entries grant the normalised path where the
roots open the names in front of the first `..`.  A path without `..` is judged
alike if nothing leaks and nothing is closed too far.
-/
theorem writable_roots_match_policy_iff
    (policy : FileSystemSandboxPolicy) (host : Host) (cwd : AbsolutePathBuf)
    (isRestricted : policy.kind = .restricted)
    (limited : policy.hasFullDiskWriteAccess = false)
    (noPointers : ∀ root, pointedGitdir host root = none)
    (path : Path) (isAbsolute : path.isAbsolute = true) :
    let entries := policy.resolvedEntriesWithCwd host cwd
    let whole := normalizeFrom [] path.components
    let front := leadingNames path.components
    let agree := policy.canWritePathWithCwd host path cwd = true ↔
      ∃ writable ∈ getWritableRootsWithCwd policy host cwd, writable.isPathWritable path = true
    (agree ↔ (Granted entries whole ↔
        Granted entries front ∧ ¬ Overcloses host cwd entries front ∨
          Leaks host cwd entries front)) ∧
      (whole = front → (agree ↔
        ¬ Leaks host cwd entries front ∧ ¬ Overcloses host cwd entries front)) := by
  intro entries whole front agree
  have both : agree ↔ (Granted entries whole ↔
      Granted entries front ∧ ¬ Overcloses host cwd entries front ∨
        Leaks host cwd entries front) := by
    rw [← exists_reaches_iff, ← canWrite_iff_granted isRestricted limited,
      ← canWrite_of_isAbsolute isAbsolute,
      ← exists_isPathWritable_iff isRestricted limited noPointers isAbsolute]
  refine ⟨both, fun same => ?_⟩
  rw [both, same]
  have leaking := @Leaks.not_granted host cwd entries front
  have closing := @Overcloses.granted host cwd entries front
  tauto

def oneRoot : FileSystemSandboxPolicy := .restricted [⟨.path ["w"], .write⟩]

theorem bareHost_noPointers (root : AbsolutePathBuf) : pointedGitdir bareHost root = none := rfl

theorem one_root_matches_policy :
    (oneRoot.canWritePathWithCwd bareHost (asPath ["w", "a"]) ["c"] = true ↔
        ∃ writable ∈ getWritableRootsWithCwd oneRoot bareHost ["c"],
          writable.isPathWritable (asPath ["w", "a"]) = true) ∧
      ¬ Leaks bareHost ["c"] (oneRoot.resolvedEntriesWithCwd bareHost ["c"]) ["w", "a"] ∧
      ¬ Overcloses bareHost ["c"] (oneRoot.resolvedEntriesWithCwd bareHost ["c"]) ["w", "a"] := by
  have agree : oneRoot.canWritePathWithCwd bareHost (asPath ["w", "a"]) ["c"] = true ↔
      ∃ writable ∈ getWritableRootsWithCwd oneRoot bareHost ["c"],
        writable.isPathWritable (asPath ["w", "a"]) = true :=
    iff_of_true (by decide +kernel) (by decide +kernel)
  exact ⟨agree, ((writable_roots_match_policy_iff oneRoot bareHost ["c"] rfl (by decide)
    bareHost_noPointers (asPath ["w", "a"]) rfl).2 rfl).mp agree⟩

def nestedRoots : FileSystemSandboxPolicy :=
  .restricted [⟨.path ["w"], .write⟩, ⟨.path ["w", "sub"], .write⟩]

/-- The outer root opens the metadata that the policy protects. -/
theorem outer_root_opens_nested_metadata : nestedRoots.kind = .restricted ∧
      nestedRoots.hasFullDiskWriteAccess = false ∧
      nestedRoots.canWritePathWithCwd bareHost
        (asPath ["w", "sub", ".git", "config"]) ["c"] = false ∧
      (getWritableRootsWithCwd nestedRoots bareHost ["c"]).any (fun writable =>
        writable.isPathWritable (asPath ["w", "sub", ".git", "config"])) = true := by
  refine ⟨rfl, by decide, ?_, ?_⟩ <;> decide +kernel

end Codex.Sandbox.WritableRootProjection
