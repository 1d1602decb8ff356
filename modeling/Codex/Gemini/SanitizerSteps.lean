import Codex.Gemini.SchemaSanitizer

/-!
# What a step of the sanitizer leaves of a node

Each step that `sanitize_node` takes before it recurses is described by what a
lookup finds after it.  A key other than `properties` and `required` comes from
the node itself or else from the first member of `allOf` that has it.
-/

namespace Codex.Gemini.SanitizerSteps

open List hiding lookup
open Protocol.JsonValue SchemaSanitizer

variable {fields : Fields} (depth : Nat)

/-! ## Stripping -/

variable (distinct : DistinctFields fields)
include distinct

theorem distinct_removeKeys (keys : List String) : DistinctFields (removeKeys keys fields) :=
  keys.foldlRecOn _ distinct fun _ kept key _ => kept.remove key

variable {key : String} {keys : List String}

theorem lookup_removeKeys :
    lookup key (removeKeys keys fields) = if key ∈ keys then none else lookup key fields := by
  induction keys generalizing fields with
  | nil => rfl
  | cons removed keys ih =>
    refine (ih (distinct.remove removed)).trans ?_
    by_cases same : key = removed
    · simp [same, lookup_removeField_self removed distinct.keys]
    · simp [same, lookup_removeField_ne removed same distinct.keys]

omit distinct in
theorem removeKeys_of_absent (absent : ∀ key ∈ keys, lookup key fields = none) :
    removeKeys keys fields = fields := by
  induction keys with
  | nil => rfl
  | cons key keys ih =>
    have gone := removeField_of_lookup_none key (absent key mem_cons_self)
    exact (congrArg (removeKeys keys) gone).trans (ih (forall_mem_cons.mp absent).2)

omit distinct in
/-- A type without texts stays; an array with one becomes a text. -/
theorem rewriteNullableType_cases (fields : Fields) : (rewriteNullableType fields = fields ∧
      ∀ types, lookup "type" fields = some (.array types) → textsOf types = []) ∨
    ∃ types text, lookup "type" fields = some (.array types) ∧ textsOf types ≠ [] ∧
      lookup "type" (rewriteNullableType fields) = some (.string text) := by
  unfold rewriteNullableType
  split
  · rename_i types isType
    dsimp only
    split
    · rename_i hasNull
      refine .inr ⟨types, ((textsOf types).filter (· != "null")).headD "string", isType, ?_, ?_⟩
      · intro none
        rw [none] at hasNull
        cases hasNull
      · rw [lookup_insertField_ne _ _ (by decide), lookup_insertField_self]
    · rename_i noNull
      split
      · rename_i first rest nonNull
        refine .inr ⟨types, first, isType, ?_, lookup_insertField_self _ _ _⟩
        intro none
        rw [none] at nonNull
        cases nonNull
      · rename_i nonNull
        refine .inl ⟨rfl, fun others isOthers => ?_⟩
        cases isType.symm.trans isOthers
        rw [filter_eq_nil_iff] at nonNull
        refine eq_nil_iff_forall_not_mem.mpr fun text listed => noNull ?_
        refine any_eq_true.mpr ⟨text, listed, ?_⟩
        simpa using nonNull text listed
  · rename_i noArray
    exact .inl ⟨rfl, fun types isType => absurd isType (noArray types)⟩

omit distinct in
theorem lookup_rewriteNullableType (notType : key ≠ "type") (notNullable : key ≠ "nullable") :
    lookup key (rewriteNullableType fields) = lookup key fields := by
  unfold rewriteNullableType
  split
  · dsimp only
    split
    · rw [lookup_insertField_ne _ _ notNullable, lookup_insertField_ne _ _ notType]
    · split
      · rw [lookup_insertField_ne _ _ notType]
      · rfl
  · rfl

theorem distinct_rewriteNullableType : DistinctFields (rewriteNullableType fields) := by
  unfold rewriteNullableType
  split
  · dsimp only
    split
    · exact (distinct.insert _ (.string _)).insert _ (.bool _)
    · split
      · exact distinct.insert _ (.string _)
      · exact distinct
  · exact distinct

theorem distinct_filterFormat : DistinctFields (filterFormat fields) := by
  unfold filterFormat
  split
  · split
    · exact distinct.remove _
    · exact distinct
  · exact distinct

omit distinct in
theorem lookup_filterFormat (notFormat : key ≠ "format") (distinct : DistinctFields fields) :
    lookup key (filterFormat fields) = lookup key fields := by
  unfold filterFormat
  split
  · split
    · exact lookup_removeField_ne _ notFormat distinct.keys
    · rfl
  · rfl

theorem lookup_format_filterFormat : lookup "format" (filterFormat fields) =
      (lookup "format" fields).filter (!isUnsupportedFormat ·) := by
  unfold filterFormat
  split
  · rename_i format found
    split
    · rename_i unsupported
      rw [lookup_removeField_self _ distinct.keys, found]
      simp [Option.filter, unsupported]
    · rename_i supported
      rw [found]
      simp [Option.filter, supported]
  · rename_i absent
    rw [absent]
    rfl

theorem distinct_stripFields : DistinctFields (stripFields fields) :=
  distinct_filterFormat ((distinct_rewriteNullableType
    (distinct_removeKeys distinct leadingKeys)).remove "pattern")

theorem lookup_stripFields (kept : key ∉ leadingKeys ++ ["pattern", "type", "nullable", "format"]) :
    lookup key (stripFields fields) = lookup key fields := by
  simp only [mem_append, mem_cons, not_mem_nil, or_false, not_or] at kept
  obtain ⟨notLeading, notPattern, notType, notNullable, notFormat⟩ := kept
  have rewritten := distinct_rewriteNullableType (distinct_removeKeys distinct leadingKeys)
  rw [stripFields, lookup_filterFormat notFormat (rewritten.remove "pattern"),
    lookup_removeField_ne _ notPattern rewritten.keys,
    lookup_rewriteNullableType notType notNullable,
    lookup_removeKeys distinct, if_neg notLeading]

theorem lookup_stripFields_of_stripped (stripped : key ∈ leadingKeys ++ ["pattern"]) :
    lookup key (stripFields fields) = none := by
  have rewritten := distinct_rewriteNullableType (distinct_removeKeys distinct leadingKeys)
  have others : ∀ key ∈ leadingKeys ++ ["pattern"],
      key ≠ "format" ∧ key ≠ "type" ∧ key ≠ "nullable" := by
    decide
  obtain ⟨notFormat, notType, notNullable⟩ := others key stripped
  rw [stripFields, lookup_filterFormat notFormat (rewritten.remove "pattern")]
  by_cases isPattern : key = "pattern"
  · rw [isPattern]
    exact lookup_removeField_self _ rewritten.keys
  · rw [lookup_removeField_ne _ isPattern rewritten.keys,
      lookup_rewriteNullableType notType notNullable, lookup_removeKeys distinct]
    refine if_pos ?_
    rcases mem_append.mp stripped with leading | last
    · exact leading
    · exact absurd (mem_singleton.mp last) isPattern

theorem lookup_format_stripFields : lookup "format" (stripFields fields) =
      (lookup "format" fields).filter (!isUnsupportedFormat ·) := by
  have rewritten := distinct_rewriteNullableType (distinct_removeKeys distinct leadingKeys)
  rw [stripFields, lookup_format_filterFormat (rewritten.remove "pattern"),
    lookup_removeField_ne _ (by decide) rewritten.keys,
    lookup_rewriteNullableType (by decide) (by decide),
    lookup_removeKeys distinct, if_neg (by decide)]

theorem lookup_type_stripFields : (lookup "type" (stripFields fields) = lookup "type" fields ∧
      ∀ types, lookup "type" fields = some (.array types) → textsOf types = []) ∨
    ∃ types text, lookup "type" fields = some (.array types) ∧ textsOf types ≠ [] ∧
      lookup "type" (stripFields fields) = some (.string text) := by
  have rewritten := distinct_rewriteNullableType (distinct_removeKeys distinct leadingKeys)
  have same : lookup "type" (removeKeys leadingKeys fields) = lookup "type" fields :=
    (lookup_removeKeys distinct).trans (if_neg (by decide))
  have stripped : lookup "type" (stripFields fields) = lookup "type"
      (rewriteNullableType (removeKeys leadingKeys fields)) := by
    rw [stripFields, lookup_filterFormat (by decide) (rewritten.remove "pattern"),
      lookup_removeField_ne _ (by decide) rewritten.keys]
  rw [stripped]
  rcases rewriteNullableType_cases (removeKeys leadingKeys fields) with
    ⟨unchanged, silent⟩ | ⟨types, text, isType, texts, rewritten⟩
  · rw [unchanged, same]
    rw [same] at silent
    exact .inl ⟨rfl, silent⟩
  · rw [same] at isType
    exact .inr ⟨types, text, isType, texts, rewritten⟩

/-! ## Merging -/

omit distinct in
theorem lookup_orInsert (key other : String) (value : Value) (fields : Fields) :
    lookup key (orInsert other value fields) =
      (lookup key fields).or (if other = key then some value else none) := by
  unfold orInsert
  by_cases same : other = key
  · subst same
    split
    · rename_i found
      simp [found]
    · rename_i absent
      simp [absent, lookup_insertField_self]
  · split
    · simp [same]
    · simp [same, lookup_insertField_ne other value (Ne.symm same)]

theorem distinct_orInsert (key : String) {value : Value} (new : value.Distinct) :
    DistinctFields (orInsert key value fields) := by
  unfold orInsert
  split
  · exact distinct
  · exact distinct.insert key new

omit distinct in
theorem lookup_mergeField (notProperties : key ≠ "properties")
    (notRequired : key ≠ "required") (fields : Fields) (other : String) (value : Value) :
    lookup key (mergeField fields other value) =
      (lookup key fields).or (if other = key then some value else none) := by
  unfold mergeField
  -- A field merged in place has another key.
  have merged (other : String) (differs : key ≠ other) (initial value : Value) :
      lookup key (orInsert other initial fields) = lookup key fields ∧
        lookup key (insertField other value (orInsert other initial fields)) =
          lookup key fields := by
    have same : lookup key (orInsert other initial fields) = lookup key fields := by
      rw [lookup_orInsert, if_neg (Ne.symm differs), Option.or_none]
    exact ⟨same, by rw [lookup_insertField_ne _ _ differs, same]⟩
  split
  · rename_i isProperties
    rw [isProperties, if_neg (Ne.symm notProperties), Option.or_none]
    split
    · dsimp only
      split
      · exact (merged _ notProperties _ _).2
      · exact (merged _ notProperties _ .null).1
    · rfl
  · split
    · rename_i isRequired
      rw [isRequired, if_neg (Ne.symm notRequired), Option.or_none]
      split
      · dsimp only
        split
        · exact (merged _ notRequired _ _).2
        · exact (merged _ notRequired _ .null).1
      · rfl
    · exact lookup_orInsert key other value fields

omit distinct in
theorem mem_pushMissing {elements more : List Value} {element : Value}
    (listed : element ∈ pushMissing elements more) : element ∈ elements ∨ element ∈ more := by
  unfold pushMissing at listed
  induction more generalizing elements with
  | nil => exact .inl listed
  | cons first more ih =>
    rcases ih listed with known | later
    · dsimp only at known
      split at known
      · exact .inl known
      · rcases mem_append.mp known with before | isFirst
        · exact .inl before
        · rw [mem_singleton.mp isFirst]
          exact .inr mem_cons_self
    · exact .inr (mem_cons_of_mem _ later)

omit distinct in
theorem distinct_mergeProperties {existing more : Fields} (distinct : DistinctFields existing)
    (each : ∀ entry ∈ more, entry.2.Distinct) :
    DistinctFields (more.foldl (fun known entry => orInsert entry.1 entry.2 known) existing) :=
  more.foldlRecOn _ distinct fun _ kept entry listed =>
    distinct_orInsert kept entry.1 (each entry listed)

theorem distinct_mergeField (key : String) {value : Value} (new : value.Distinct) :
    DistinctFields (mergeField fields key value) := by
  unfold mergeField
  split
  · split
    · rename_i more
      have started := distinct_orInsert distinct "properties"
        ((distinct_object_iff []).mpr ⟨nodup_nil, by simp⟩)
      dsimp only
      split
      · rename_i existing found
        refine started.insert _ ((distinct_object_iff _).mpr ?_)
        exact distinct_mergeProperties ((distinct_object_iff _).mp (started.lookup found))
          ((distinct_object_iff _).mp new).each
      · exact started
    · exact distinct
  · split
    · split
      · rename_i more
        have started := distinct_orInsert distinct "required"
          ((distinct_array_iff []).mpr (by simp))
        dsimp only
        split
        · rename_i existing found
          refine started.insert _ ((distinct_array_iff _).mpr ?_)
          intro element listed
          rcases mem_pushMissing listed with known | added
          · exact (distinct_array_iff _).mp (started.lookup found) _ known
          · exact (distinct_array_iff _).mp new _ added
        · exact started
      · exact distinct
    · exact distinct_orInsert distinct key new

omit distinct in
theorem lookup_mergeMember (notProperties : key ≠ "properties") (notRequired : key ≠ "required")
    (fields : Fields) (mem : Value) :
    lookup key (mergeMember fields mem) = (lookup key fields).or (mem.get key) := by
  cases mem with
  | object entries =>
    simp only [mergeMember, Value.get]
    induction entries generalizing fields with
    | nil => simp [lookup]
    | cons entry entries ih =>
      obtain ⟨name, value⟩ := entry
      rw [foldl_cons, ih, lookup_mergeField notProperties notRequired, lookup, Option.or_assoc]
      split <;> simp
  | _ => simp [mergeMember, Value.get]

theorem distinct_mergeMember {mem : Value} (new : mem.Distinct) :
    DistinctFields (mergeMember fields mem) := by
  cases mem with
  | object entries =>
    have each := ((distinct_object_iff _).mp new).each
    exact entries.foldlRecOn _ distinct fun _ kept entry listed =>
      distinct_mergeField kept entry.1 (each entry listed)
  | _ => exact distinct

/-- What the first of some members that has a key has for it. -/
def memberField (key : String) (members : List Value) : Option Value :=
  members.findSome? fun mem => mem.get key

omit distinct in
theorem lookup_mergeMembers (notProperties : key ≠ "properties") (notRequired : key ≠ "required")
    (fields : Fields) (members : List Value) :
    lookup key (members.foldl mergeMember fields) =
      (lookup key fields).or (memberField key members) := by
  induction members generalizing fields with
  | nil => simp [memberField]
  | cons mem members ih =>
    rw [foldl_cons, ih, lookup_mergeMember notProperties notRequired, Option.or_assoc,
      memberField, memberField, findSome?_cons]
    cases mem.get key <;> simp

theorem distinct_allOfMembers : ∀ mem ∈ allOfMembers fields, mem.Distinct := by
  unfold allOfMembers
  split
  · rename_i members found
    exact (distinct_array_iff _).mp (distinct.lookup found)
  · simp

theorem distinct_mergeAllOf : DistinctFields (mergeAllOf fields) := by
  have each := distinct_allOfMembers distinct
  exact (allOfMembers fields).foldlRecOn _ (distinct.remove "allOf") fun _ kept mem listed =>
    distinct_mergeMember kept (each mem listed)

/-! ## Combinators -/

theorem distinct_demoteOneOf : DistinctFields (demoteOneOf depth fields) := by
  unfold demoteOneOf
  split
  · rename_i members found
    split
    · exact (distinct.remove _).insert _ (distinct.lookup found)
    · exact distinct.remove _
  · exact distinct.remove _

theorem distinct_normalizeCombinators : DistinctFields (normalizeCombinators depth fields) := by
  have demoted := distinct_demoteOneOf depth (distinct_mergeAllOf distinct)
  unfold normalizeCombinators capAnyOf
  split
  · exact demoted.remove _
  · exact demoted

theorem distinct_normalizeFields : DistinctFields (normalizeFields depth fields) :=
  distinct_normalizeCombinators depth (distinct_stripFields distinct)

theorem lookup_demoteOneOf (notAnyOf : key ≠ "anyOf") (notOneOf : key ≠ "oneOf") :
    lookup key (demoteOneOf depth fields) = lookup key fields := by
  have removed := lookup_removeField_ne _ notOneOf distinct.keys
  unfold demoteOneOf
  split
  · split
    · rw [lookup_insertField_ne _ _ notAnyOf, removed]
    · exact removed
  · exact removed

theorem lookup_oneOf_demoteOneOf : lookup "oneOf" (demoteOneOf depth fields) = none := by
  have removed := lookup_removeField_self "oneOf" distinct.keys
  unfold demoteOneOf
  split
  · split
    · rw [lookup_insertField_ne _ _ (by decide), removed]
    · exact removed
  · exact removed

theorem lookup_capAnyOf (notAnyOf : key ≠ "anyOf") :
    lookup key (capAnyOf depth fields) = lookup key fields := by
  unfold capAnyOf
  split
  · exact lookup_removeField_ne _ notAnyOf distinct.keys
  · rfl

/-! ## The node before the recursion -/

theorem lookup_oneOf_normalizeFields : lookup "oneOf" (normalizeFields depth fields) = none := by
  have merged := distinct_mergeAllOf (distinct_stripFields distinct)
  rw [normalizeFields, normalizeCombinators,
    lookup_capAnyOf depth (distinct_demoteOneOf depth merged) (by decide),
    lookup_oneOf_demoteOneOf depth merged]

omit distinct in
theorem depth_le_of_anyOf {depth : Nat} (distinct : DistinctFields fields)
    (found : lookup "anyOf" (normalizeFields depth fields) ≠ none) : depth ≤ 2 := by
  by_contra deeper
  refine found ?_
  rw [normalizeFields, normalizeCombinators, capAnyOf, if_pos (Nat.lt_of_not_le deeper)]
  exact lookup_removeField_self _ (distinct_demoteOneOf depth
      (distinct_mergeAllOf (distinct_stripFields distinct))).keys

theorem allOfMembers_stripFields : allOfMembers (stripFields fields) = allOfMembers fields := by
  rw [allOfMembers, lookup_stripFields distinct (by decide), allOfMembers]

/-- Another key is the stripped node's own or else the first member's. -/
theorem lookup_normalizeFields
    (plain : key ∉ ["properties", "required", "anyOf", "oneOf", "allOf"]) :
    lookup key (normalizeFields depth fields) = (lookup key (stripFields fields)).or
        (memberField key (allOfMembers fields)) := by
  simp only [mem_cons, not_mem_nil, or_false, not_or] at plain
  obtain ⟨notProperties, notRequired, notAnyOf, notOneOf, notAllOf⟩ := plain
  have stripped := distinct_stripFields distinct
  have merged := distinct_mergeAllOf stripped
  rw [normalizeFields, normalizeCombinators,
    lookup_capAnyOf depth (distinct_demoteOneOf depth merged) notAnyOf,
    lookup_demoteOneOf depth merged notAnyOf notOneOf,
    mergeAllOf, lookup_mergeMembers notProperties notRequired,
    lookup_removeField_ne _ notAllOf stripped.keys,
    allOfMembers_stripFields distinct]

theorem lookup_allOf_normalizeFields :
    lookup "allOf" (normalizeFields depth fields) = memberField "allOf" (allOfMembers fields) := by
  have stripped := distinct_stripFields distinct
  have merged := distinct_mergeAllOf stripped
  rw [normalizeFields, normalizeCombinators,
    lookup_capAnyOf depth (distinct_demoteOneOf depth merged) (by decide),
    lookup_demoteOneOf depth merged (by decide) (by decide),
    mergeAllOf, lookup_mergeMembers (by decide) (by decide),
    lookup_removeField_self _ stripped.keys, Option.none_or,
    allOfMembers_stripFields distinct]

end Codex.Gemini.SanitizerSteps
