import Codex.Gemini.SanitizerSteps

/-!
# When a sanitized schema is clean

The sanitizer strips a node before it merges the members of the node's `allOf`
into it, so that a member can bring back what was stripped, and a type that is
an array without texts is never rewritten.  These are the only ways in which
its result is not clean at every schema position, or changes when it is
sanitized again: `sanitized_clean_iff`.
-/

namespace Codex.Gemini.SanitizedSchemas

open List hiding lookup
open Protocol.JsonValue SchemaSanitizer SanitizerSteps Function

/-! ## Schema positions -/

/-- The schemas in a field that `sanitize_node` goes on to. -/
def visitedIn (key : String) (value : Value) : List Value :=
  if key = "properties" ∨ key = "patternProperties" then
    match value with
    | .object props => props.map Prod.snd
    | _ => []
  else if key = "items" then [value]
  else if key = "anyOf" then
    match value with
    | .array members => members
    | _ => []
  else if key = "additionalProperties" then
    match value with
    | .object fields => [.object fields]
    | _ => []
  else []

/-- The schemas that `sanitize_node` goes on to. -/
def visitedOf (fields : Fields) : List Value :=
  fields.flatMap fun entry => visitedIn entry.1 entry.2

/-- Whether a key holds schemas of the positions that clients read. -/
def isListedKey (key : String) : Bool :=
  decide (key ∉ ["patternProperties", "additionalProperties"])

/-- The property values, the items and the members of `anyOf` of a node. -/
def schemasOf (fields : Fields) : List Value :=
  visitedOf (fields.filter fun entry => isListedKey entry.1)

/-- The objects that are reached from a value, with their depth. -/
inductive Reached (select : Nat → Fields → List Value) : Nat → Value → Nat → Fields → Prop
  | here (depth : Nat) (fields : Fields) : Reached select depth (.object fields) depth fields
  | inside {depth deeper : Nat} {fields reached : Fields} {child : Value}
      (selected : child ∈ select depth fields)
      (later : Reached select (depth + 1) child deeper reached) :
      Reached select depth (.object fields) deeper reached

/-- A property of every object that is reached from a value. -/
def Always (select : Nat → Fields → List Value) (good : Nat → Fields → Prop)
    (depth : Nat) (value : Value) : Prop :=
  ∀ deeper fields, Reached select depth value deeper fields → good deeper fields

section Always

variable {select : Nat → Fields → List Value} {good : Nat → Fields → Prop}

theorem always_object (depth : Nat) (fields : Fields) : Always select good depth (.object fields) ↔
      good depth fields ∧ ∀ child ∈ select depth fields, Always select good (depth + 1) child := by
  constructor
  · intro always
    exact ⟨always depth fields (.here depth fields), fun child selected deeper reached later =>
        always deeper reached (.inside selected later)⟩
  · rintro ⟨here, below⟩ deeper reached path
    cases path with
    | here => exact here
    | inside selected later => exact below _ selected _ _ later

theorem always_of_not_object (depth : Nat) {value : Value} (notObject : value.isObject = false) :
    Always select good depth value := by
  intro deeper fields path
  cases path <;> cases notObject

theorem depth_le_of_reached {depth deeper : Nat} {value : Value}
    {fields : Fields} (path : Reached select depth value deeper fields) : depth ≤ deeper := by
  induction path with
  | here => exact Nat.le_refl _
  | inside _ _ ih => exact (Nat.le_succ _).trans ih

end Always

/-! ## Clean nodes -/

def strippedKeys : List String := leadingKeys ++ ["pattern", "allOf", "oneOf"]

/-- A node that another pass of the sanitizer leaves as it is. -/
structure Settled (depth : Nat) (fields : Fields) : Prop where
  stripped : ∀ key ∈ strippedKeys, lookup key fields = none
  texts : ∀ types, lookup "type" fields = some (.array types) → textsOf types = []
  format : ∀ format, lookup "format" fields = some format → isUnsupportedFormat format = false
  anyOf : lookup "anyOf" fields ≠ none → depth ≤ 2

/-- A node without stripped keys, with one type, and no deep `anyOf`. -/
structure CleanNode (depth : Nat) (fields : Fields) : Prop
    extends Settled depth fields where
  type : ∀ types, lookup "type" fields ≠ some (.array types)

/-! ## Conditions on a node -/

/--
The members of `allOf` bring back no stripped key, no type that would be
rewritten and no format that would be dropped.
-/
structure MergesCleanly (fields : Fields) : Prop where
  members : ∀ mem ∈ allOfMembers fields,
    ∀ key ∈ leadingKeys ++ ["pattern", "allOf"], mem.get key = none
  type : lookup "type" fields = none → ∀ types,
    memberField "type" (allOfMembers fields) = some (.array types) → textsOf types = []
  format : (∀ format, lookup "format" fields = some format →
      isUnsupportedFormat format = true) → ∀ format,
    memberField "format" (allOfMembers fields) = some format → isUnsupportedFormat format = false

/-- Neither the node nor a member of `allOf` leaves an array as the type. -/
structure HasOneType (fields : Fields) : Prop where
  own : ∀ types, lookup "type" fields = some (.array types) → textsOf types ≠ []
  merged : lookup "type" fields = none → ∀ types,
    memberField "type" (allOfMembers fields) ≠ some (.array types)

variable {key : String}

theorem memberField_eq_none_iff {members : List Value} :
    memberField key members = none ↔ ∀ mem ∈ members, mem.get key = none :=
  findSome?_eq_none_iff

section Conditions

variable {fields : Fields} (depth : Nat) (f : Value → Value) (distinct : DistinctFields fields)
include distinct

theorem stripped_normalizeFields_iff : (∀ key ∈ strippedKeys,
        lookup key (normalizeFields depth fields) = none) ↔
      ∀ mem ∈ allOfMembers fields, ∀ key ∈ leadingKeys ++ ["pattern", "allOf"],
          mem.get key = none := by
  have plain : ∀ key ∈ leadingKeys ++ ["pattern"],
      key ∉ ["properties", "required", "anyOf", "oneOf", "allOf"] := by
    decide
  have ofMembers : ∀ key ∈ leadingKeys ++ ["pattern", "allOf"],
      lookup key (normalizeFields depth fields) = memberField key (allOfMembers fields) := by
    intro key listed
    by_cases isAllOf : key = "allOf"
    · rw [isAllOf]
      exact lookup_allOf_normalizeFields depth distinct
    · have early : key ∈ leadingKeys ++ ["pattern"] := by
        simp only [mem_append, mem_cons, not_mem_nil, or_false, isAllOf] at listed ⊢
        exact listed
      rw [lookup_normalizeFields depth distinct (plain key early),
        lookup_stripFields_of_stripped distinct early, Option.none_or]
  constructor
  · intro absent mem isMember key listed
    have isStripped : key ∈ strippedKeys := by
      simp only [strippedKeys, mem_append, mem_cons, not_mem_nil, or_false] at listed ⊢
      tauto
    have none := absent key isStripped
    rw [ofMembers key listed] at none
    exact memberField_eq_none_iff.mp none mem isMember
  · intro clean key isStripped
    by_cases isOneOf : key = "oneOf"
    · rw [isOneOf]
      exact lookup_oneOf_normalizeFields depth distinct
    · have listed : key ∈ leadingKeys ++ ["pattern", "allOf"] := by
        simp only [strippedKeys, mem_append, mem_cons,
          not_mem_nil, or_false, isOneOf] at isStripped ⊢
        exact isStripped
      rw [ofMembers key listed]
      exact memberField_eq_none_iff.mpr fun mem isMember => clean mem isMember key listed

theorem type_normalizeFields_iff (good : List Value → Prop) :
    (∀ types, lookup "type" (normalizeFields depth fields) = some (.array types) → good types) ↔
      (∀ types, lookup "type" fields = some (.array types) → textsOf types = [] → good types) ∧
      (lookup "type" fields = none → ∀ types,
        memberField "type" (allOfMembers fields) = some (.array types) → good types) := by
  rw [lookup_normalizeFields depth distinct (by decide)]
  rcases lookup_type_stripFields distinct with
    ⟨same, silent⟩ | ⟨types, text, isType, texts, rewritten⟩
  · rw [same]
    cases own : lookup "type" fields with
    | none => simp
    | some value =>
      rw [own] at silent
      simp only [Option.some_or, Option.some.injEq, reduceCtorEq,
        IsEmpty.forall_iff, and_true] at silent ⊢
      exact ⟨fun all types isValue _ => all types isValue,
        fun all types isValue => all types isValue (silent types isValue)⟩
  · rw [rewritten, isType]
    simp [texts]

theorem format_normalizeFields_iff :
    (∀ format, lookup "format" (normalizeFields depth fields) = some format →
        isUnsupportedFormat format = false) ↔
      ((∀ format, lookup "format" fields = some format →
          isUnsupportedFormat format = true) → ∀ format,
        memberField "format" (allOfMembers fields) = some format →
          isUnsupportedFormat format = false) := by
  rw [lookup_normalizeFields depth distinct (by decide), lookup_format_stripFields distinct]
  cases own : lookup "format" fields with
  | none => simp
  | some format =>
    cases unsupported : isUnsupportedFormat format <;>
      simp [Option.filter, unsupported]

theorem settled_normalizeFields_iff :
    Settled depth (normalizeFields depth fields) ↔ MergesCleanly fields := by
  have strippedIff := stripped_normalizeFields_iff depth distinct
  have typeIff := type_normalizeFields_iff depth distinct fun types => textsOf types = []
  have formatIff := format_normalizeFields_iff depth distinct
  constructor
  · intro settled
    exact ⟨strippedIff.mp settled.stripped, (typeIff.mp settled.texts).2,
      formatIff.mp settled.format⟩
  · intro merges
    exact ⟨strippedIff.mpr merges.members, typeIff.mpr ⟨fun _ _ none => none, merges.type⟩,
      formatIff.mpr merges.format, depth_le_of_anyOf distinct⟩

theorem cleanNode_normalizeFields_iff :
    CleanNode depth (normalizeFields depth fields) ↔ MergesCleanly fields ∧ HasOneType fields := by
  have settledIff := settled_normalizeFields_iff depth distinct
  have typeIff := type_normalizeFields_iff depth distinct fun _ => False
  constructor
  · intro clean
    have one := typeIff.mp clean.type
    exact ⟨settledIff.mp clean.toSettled, ⟨one.1, one.2⟩⟩
  · rintro ⟨merges, one⟩
    exact ⟨settledIff.mpr merges, typeIff.mpr ⟨one.own, one.merged⟩⟩

omit distinct

/-! ## Children -/

theorem lookup_mapChildren (key : String) (fields : Fields) :
    lookup key (mapChildren f fields) = (lookup key fields).map (mapSchemas f key) := by
  induction fields with
  | nil => rfl
  | cons entry fields ih =>
    obtain ⟨name, value⟩ := entry
    simp only [mapChildren, map_cons, lookup] at ih ⊢
    split
    · rename_i same
      rw [same, Option.map_some]
    · exact ih

theorem keys_mapChildren (fields : Fields) :
    (mapChildren f fields).map Prod.fst = fields.map Prod.fst := by
  simp [mapChildren, comp_def]

theorem visitedIn_mapSchemas {f : Value → Value}
    (keeps : ∀ fields, (f (.object fields)).isObject = true) (key : String) (value : Value) :
    visitedIn key (mapSchemas f key value) = (visitedIn key value).map f := by
  unfold mapSchemas visitedIn
  split
  · cases value <;> simp
  split
  · rfl
  split
  · cases value <;> simp
  split
  · cases value with
    | object fields =>
      have kept := keeps fields
      cases sanitized : f (.object fields) with
      | object after => simp [sanitized]
      | _ =>
        rw [sanitized] at kept
        cases kept
    | _ => rfl
  · rfl

theorem visitedOf_mapChildren {f : Value → Value}
    (keeps : ∀ fields, (f (.object fields)).isObject = true) (fields : Fields) :
    visitedOf (mapChildren f fields) = (visitedOf fields).map f := by
  simp only [visitedOf, mapChildren, flatMap_map, map_flatMap, visitedIn_mapSchemas keeps]

theorem schemasOf_mapChildren {f : Value → Value}
    (keeps : ∀ fields, (f (.object fields)).isObject = true) (fields : Fields) :
    schemasOf (mapChildren f fields) = (schemasOf fields).map f := by
  have filtered : (mapChildren f fields).filter (fun entry => isListedKey entry.1) =
        mapChildren f (fields.filter fun entry => isListedKey entry.1) :=
    filter_map
  rw [schemasOf, filtered, visitedOf_mapChildren keeps, schemasOf]

theorem map_eq_self_iff {α : Type} (f : α → α) (elements : List α) :
    elements.map f = elements ↔ ∀ element ∈ elements, f element = element := by
  have pointwise := map_eq_map_iff (l := elements) (f := f) (g := id)
  rwa [map_id] at pointwise

theorem mapSchemas_eq_self_iff (key : String) (value : Value) :
    mapSchemas f key value = value ↔ ∀ child ∈ visitedIn key value, f child = child := by
  have entries (props : Fields) : props.map (fun entry => (entry.1, f entry.2)) = props ↔
        ∀ child ∈ props.map Prod.snd, f child = child := by
    rw [map_eq_self_iff, forall_mem_map]
    simp [Prod.ext_iff]
  unfold mapSchemas visitedIn
  split
  · cases value with
    | object props => simp only [Value.object.injEq, entries]
    | _ => simp
  split
  · simp
  split
  · cases value with
    | array members => simp [map_eq_self_iff]
    | _ => simp
  split
  · cases value <;> simp
  · simp

theorem mapChildren_eq_self_iff (fields : Fields) :
    mapChildren f fields = fields ↔ ∀ child ∈ visitedOf fields, f child = child := by
  have entries : mapChildren f fields = fields ↔
      ∀ entry ∈ fields, mapSchemas f entry.1 entry.2 = entry.2 := by
    rw [mapChildren, map_eq_self_iff]
    simp [Prod.ext_iff]
  rw [entries]
  simp only [mapSchemas_eq_self_iff, visitedOf, mem_flatMap]
  exact ⟨fun all child ⟨entry, listed, isChild⟩ =>
      all entry listed child isChild,
    fun all entry listed child isChild => all child ⟨entry, listed, isChild⟩⟩

theorem distinct_visitedOf (distinct : DistinctFields fields) :
    ∀ child ∈ visitedOf fields, child.Distinct := by
  intro child isVisited
  obtain ⟨⟨key, value⟩, listed, isChild⟩ := mem_flatMap.mp isVisited
  have inner := distinct.each _ listed
  dsimp only at inner isChild
  unfold visitedIn at isChild
  split at isChild
  · split at isChild
    · obtain ⟨entry, isEntry, rfl⟩ := mem_map.mp isChild
      exact ((distinct_object_iff _).mp inner).each entry isEntry
    · cases isChild
  split at isChild
  · rw [mem_singleton.mp isChild]
    exact inner
  split at isChild
  · split at isChild
    · exact (distinct_array_iff _).mp inner child isChild
    · cases isChild
  split at isChild
  · split at isChild
    · rw [mem_singleton.mp isChild]
      exact inner
    · cases isChild
  · cases isChild

theorem schemasOf_subset (fields : Fields) : schemasOf fields ⊆ visitedOf fields := by
  intro child isSchema
  obtain ⟨entry, listed, isChild⟩ := mem_flatMap.mp isSchema
  exact mem_flatMap.mpr ⟨entry, (mem_filter.mp listed).1, isChild⟩

theorem distinct_mapChildren {f : Value → Value} (distinct : DistinctFields fields)
    (each : ∀ value, value.Distinct → (f value).Distinct) :
    DistinctFields (mapChildren f fields) := by
  refine ⟨?_, ?_⟩
  · rw [keys_mapChildren]
    exact distinct.keys
  · intro field listed
    obtain ⟨⟨key, value⟩, isEntry, rfl⟩ := mem_map.mp listed
    have inner := distinct.each _ isEntry
    dsimp only at inner ⊢
    unfold mapSchemas
    split
    · cases value with
      | object props =>
        have props := (distinct_object_iff _).mp inner
        refine (distinct_object_iff _).mpr ⟨?_, ?_⟩
        · simpa [comp_def] using props.keys
        · intro prop isProp
          obtain ⟨entry, isEntry, rfl⟩ := mem_map.mp isProp
          exact each _ (props.each entry isEntry)
      | _ => exact inner
    split
    · exact each _ inner
    split
    · cases value with
      | array members =>
        refine (distinct_array_iff _).mpr fun mem isMember => ?_
        obtain ⟨before, isBefore, rfl⟩ := mem_map.mp isMember
        exact each _ ((distinct_array_iff _).mp inner before isBefore)
      | _ => exact inner
    split
    · cases value with
      | object props => exact each _ inner
      | _ => exact inner
    · exact inner

/-! ## Nodes that a pass leaves as they are -/

/-- Nodes that are settled or clean together. -/
structure Alike (left right : Fields) : Prop where
  keys : ∀ key ∈ strippedKeys ++ ["format"], lookup key left = lookup key right
  type : ∀ types, lookup "type" left = some (.array types) ↔
    lookup "type" right = some (.array types)
  anyOf : lookup "anyOf" left = none ↔ lookup "anyOf" right = none

theorem Alike.settled_iff {left right : Fields} (alike : Alike left right) (depth : Nat) :
    Settled depth left ↔ Settled depth right := by
  have format := alike.keys "format" (by simp)
  have stripped : (∀ key ∈ strippedKeys, lookup key left = none) ↔
      ∀ key ∈ strippedKeys, lookup key right = none :=
    forall₂_congr fun key listed => by rw [alike.keys key (mem_append_left _ listed)]
  constructor
  · intro settled
    exact ⟨stripped.mp settled.stripped,
      fun types isType => settled.texts types ((alike.type types).mpr isType),
      format ▸ settled.format,
      fun found => settled.anyOf (mt alike.anyOf.mp found)⟩
  · intro settled
    exact ⟨stripped.mpr settled.stripped,
      fun types isType => settled.texts types ((alike.type types).mp isType),
      format ▸ settled.format,
      fun found => settled.anyOf (mt alike.anyOf.mpr found)⟩

theorem Alike.cleanNode_iff {left right : Fields} (alike : Alike left right) (depth : Nat) :
    CleanNode depth left ↔ CleanNode depth right := by
  have settled := alike.settled_iff depth
  constructor
  · intro clean
    exact ⟨settled.mp clean.toSettled, fun types => mt (alike.type types).mpr (clean.type types)⟩
  · intro clean
    exact ⟨settled.mpr clean.toSettled, fun types => mt (alike.type types).mp (clean.type types)⟩

theorem alike_mapChildren (fields : Fields) : Alike (mapChildren f fields) fields := by
  have plain : ∀ key ∈ strippedKeys ++ ["format", "type"], mapSchemas f key = id := by
    intro key listed
    have others : ∀ key ∈ strippedKeys ++ ["format", "type"],
        ¬ (key = "properties" ∨ key = "patternProperties") ∧
          key ≠ "items" ∧ key ≠ "anyOf" ∧ key ≠ "additionalProperties" := by
      decide
    obtain ⟨notProperties, notItems, notAnyOf, notAdditional⟩ := others key listed
    funext value
    unfold mapSchemas
    rw [if_neg notProperties, if_neg notItems, if_neg notAnyOf, if_neg notAdditional, id]
  refine ⟨?_, ?_, ?_⟩
  · intro key listed
    have isPlain : key ∈ strippedKeys ++ ["format", "type"] := by
      simp only [mem_append, mem_cons, not_mem_nil, or_false] at listed ⊢
      tauto
    rw [lookup_mapChildren, plain key isPlain, Option.map_id, id]
  · intro types
    rw [lookup_mapChildren, plain "type" (by simp), Option.map_id, id]
  · rw [lookup_mapChildren, Option.map_eq_none_iff]

theorem normalizeFields_of_settled {depth : Nat} (settled : Settled depth fields) :
    normalizeFields depth fields = fields := by
  have absent : ∀ key ∈ ["pattern", "allOf", "oneOf"], lookup key fields = none := fun key listed =>
    settled.stripped key (mem_append_right _ listed)
  have removed : removeKeys leadingKeys fields = fields := removeKeys_of_absent fun key listed =>
      settled.stripped key (mem_append_left _ listed)
  have rewritten : rewriteNullableType fields = fields := by
    rcases rewriteNullableType_cases fields with
      ⟨unchanged, -⟩ | ⟨types, -, isType, texts, -⟩
    · exact unchanged
    · exact absurd (settled.texts types isType) texts
  have filtered : filterFormat fields = fields := by
    unfold filterFormat
    split
    · rename_i format found
      simp [settled.format format found]
    · rfl
  have stripped : stripFields fields = fields := by
    rw [stripFields, removed, rewritten,
      removeField_of_lookup_none _ (absent "pattern" (by simp)), filtered]
  have merged : mergeAllOf fields = fields := by
    have noAllOf := absent "allOf" (by simp)
    rw [mergeAllOf, allOfMembers, noAllOf, removeField_of_lookup_none _ noAllOf]
    rfl
  have demoted : demoteOneOf depth fields = fields := by
    have noOneOf := absent "oneOf" (by simp)
    rw [demoteOneOf, noOneOf]
    exact removeField_of_lookup_none _ noOneOf
  rw [normalizeFields, stripped, normalizeCombinators, merged, demoted, capAnyOf]
  split
  · rename_i deep
    refine removeField_of_lookup_none _ (not_not.mp fun found => ?_)
    exact absurd (settled.anyOf found) (Nat.not_le_of_lt deep)
  · rfl

theorem sizeOf_lookup_lt {value : Value} (found : lookup key fields = some value) :
    sizeOf value < sizeOf (Value.object fields) := by
  have listed := sizeOf_lt_of_mem (mem_of_lookup found)
  simp only [Prod.mk.sizeOf_spec, Value.object.sizeOf_spec] at listed ⊢
  omega

theorem allOf_not_brought_back (same : memberField "allOf" (allOfMembers fields) =
      lookup "allOf" fields) :
    lookup "allOf" fields = none := by
  cases found : lookup "allOf" fields with
  | none => rfl
  | some allOf =>
    rw [found, memberField, allOfMembers, found] at same
    cases allOf with
    | array members =>
      obtain ⟨mem, isMember, isAllOf⟩ := exists_of_findSome?_eq_some same
      cases mem with
      | object entries =>
        have isListed : Value.object entries ∈ members := isMember
        have inner := sizeOf_lookup_lt isAllOf
        have outer := sizeOf_lt_of_mem isListed
        simp only [Value.array.sizeOf_spec] at inner
        omega
      | _ => cases isAllOf
    | _ => cases same

/-- A node stays when it is settled and its schemas stay. -/
theorem pass_eq_self_iff (depth : Nat) (distinct : DistinctFields fields) :
    mapChildren f (normalizeFields depth fields) = fields ↔
      Settled depth fields ∧ ∀ child ∈ visitedOf fields, f child = child := by
  constructor
  · intro stays
    have alike := alike_mapChildren f (normalizeFields depth fields)
    rw [stays] at alike
    have noAllOf : lookup "allOf" fields = none := by
      refine allOf_not_brought_back ?_
      rw [← lookup_allOf_normalizeFields depth distinct]
      exact (alike.keys "allOf" (by decide)).symm
    have noMembers : allOfMembers fields = [] := by rw [allOfMembers, noAllOf]
    have merges : MergesCleanly fields := by refine ⟨?_, ?_, ?_⟩ <;> simp [noMembers, memberField]
    have settled : Settled depth fields := (alike.settled_iff depth).mpr
      ((settled_normalizeFields_iff depth distinct).mpr merges)
    rw [normalizeFields_of_settled settled] at stays
    exact ⟨settled, (mapChildren_eq_self_iff f fields).mp stays⟩
  · rintro ⟨settled, children⟩
    rw [normalizeFields_of_settled settled]
    exact (mapChildren_eq_self_iff f fields).mpr children

end Conditions

/-! ## The walk -/

/-- What `sanitize_node` goes on to from a node at a depth. -/
def visitedAfter (depth : Nat) (fields : Fields) : List Value :=
  visitedOf (normalizeFields depth fields)

/-- The same for the schemas that clients read. -/
def schemasAfter (depth : Nat) (fields : Fields) : List Value :=
  schemasOf (normalizeFields depth fields)

theorem isObject_sanitizeLevels (levels : Nat) (fields : Fields) :
    (sanitizeLevels levels (.object fields)).isObject = true := by
  cases levels <;> rfl

theorem distinct_objectType : objectType.Distinct := .object (by decide) fun field listed => by
    rw [mem_singleton.mp listed]
    exact .string _

variable {value : Value} {depth : Nat}

theorem distinct_sanitizeLevels (levels : Nat) (distinct : value.Distinct) :
    (sanitizeLevels levels value).Distinct := by
  induction levels generalizing value with
  | zero => exact distinct_objectType
  | succ levels ih =>
    cases value with
    | object fields =>
      have normalized := distinct_normalizeFields (maxDepth - levels)
        ((distinct_object_iff fields).mp distinct)
      exact (distinct_object_iff _).mpr (distinct_mapChildren normalized fun _ inner => ih inner)
    | _ => exact distinct

variable {good : Nat → Fields → Prop}

theorem always_beyond {select : Nat → Fields → List Value} (beyond : maxDepth < depth)
    (value : Value) :
    Always select (fun deeper fields => deeper ≤ maxDepth → good deeper fields) depth value := by
  intro deeper fields path within
  have below := depth_le_of_reached path
  omega

theorem sanitizeLevels_spec {levels : Nat} (total : levels + depth = maxDepth + 1)
    (distinct : value.Distinct) :
    (sanitizeLevels levels (sanitizeLevels levels value) = sanitizeLevels levels value ↔
      Always visitedAfter (fun deeper fields => deeper ≤ maxDepth → MergesCleanly fields)
        depth value) ∧
    (Always (fun _ => schemasOf) CleanNode depth (sanitizeLevels levels value) ↔
      Always schemasAfter (fun deeper fields => deeper ≤ maxDepth →
        MergesCleanly fields ∧ HasOneType fields) depth value) := by
  induction levels generalizing depth value with
  | zero =>
    have beyond : maxDepth < depth := by omega
    refine ⟨⟨fun _ => always_beyond beyond value, fun _ => rfl⟩,
      fun _ => always_beyond beyond value, fun _ => ?_⟩
    refine (always_object depth _).mpr ⟨⟨⟨?_, ?_, ?_, ?_⟩, ?_⟩, ?_⟩
    · decide
    · intro types isType
      cases isType
    · intro format isFormat
      cases isFormat
    · intro found
      exact absurd rfl found
    · intro types isType
      cases isType
    · intro child isChild
      cases isChild
  | succ levels ih =>
    cases value with
    | object fields =>
      have isDepth : maxDepth - levels = depth := by omega
      have own := (distinct_object_iff fields).mp distinct
      have normalized := distinct_normalizeFields depth own
      have children := distinct_visitedOf normalized
      have sanitized := distinct_mapChildren normalized
        fun _ inner => distinct_sanitizeLevels levels inner
      have keeps := isObject_sanitizeLevels levels
      have merging : ∀ merges : Prop, merges ↔ (depth ≤ maxDepth → merges) := fun merges =>
        ⟨fun holds _ => holds, fun holds => holds (by omega)⟩
      constructor
      · simp only [sanitizeLevels, isDepth, Value.object.injEq]
        rw [pass_eq_self_iff _ depth sanitized, (alike_mapChildren _ _).settled_iff depth,
          settled_normalizeFields_iff depth own, visitedOf_mapChildren keeps, always_object,
          forall_mem_map]
        exact and_congr (merging _) (forall₂_congr fun child isChild =>
          (ih (by omega) (children child isChild)).1)
      · rw [sanitizeLevels, isDepth, always_object, always_object,
          (alike_mapChildren _ _).cleanNode_iff depth, cleanNode_normalizeFields_iff depth own,
          schemasOf_mapChildren keeps, forall_mem_map]
        exact and_congr (merging _) (forall₂_congr fun child isChild =>
          (ih (by omega) (children child (schemasOf_subset _ isChild))).2)
    | _ =>
      exact ⟨⟨fun _ => always_of_not_object depth rfl, fun _ => rfl⟩,
        fun _ => always_of_not_object depth rfl, fun _ => always_of_not_object depth rfl⟩

/-! ## The root -/

section Root

variable {value schema : Value}

theorem distinct_inlineRefs {inlined : String → Option Value}
    (each : ∀ path value, inlined path = some value → value.Distinct) (distinct : value.Distinct) :
    (inlineRefs inlined value).Distinct := by
  induction distinct with
  | @object fields keys distinctEach ih =>
    rw [inlineRefs]
    split
    · rename_i value found
      obtain ⟨path, -, isInlined⟩ := Option.bind_eq_some_iff.mp found
      exact each path value isInlined
    · have asMap : inlineFields inlined fields = fields.map fun entry =>
          (entry.1, inlineRefs inlined entry.2) := by
        clear * -
        induction fields with
        | nil => rfl
        | cons entry fields ih => rw [inlineFields, ih, map_cons]
      rw [asMap]
      refine .object ?_ ?_
      · simpa [comp_def] using keys
      · intro field listed
        obtain ⟨entry, isEntry, rfl⟩ := mem_map.mp listed
        exact ih entry isEntry
  | @array elements distinctEach ih =>
    have asMap : inlineElements inlined elements = elements.map (inlineRefs inlined) := by
      clear * -
      induction elements with
      | nil => rfl
      | cons element elements ih => rw [inlineElements, ih, map_cons]
    rw [inlineRefs, asMap]
    refine .array fun element listed => ?_
    obtain ⟨before, isBefore, rfl⟩ := mem_map.mp listed
    exact ih before isBefore
  | null => exact .null
  | bool value => exact .bool value
  | number literal => exact .number literal
  | string value => exact .string value

theorem distinct_resolveRefs {defs : Fields}
    (defsDistinct : DistinctFields defs) (chain : List String) (distinct : value.Distinct) :
    (resolveRefs defs chain value).Distinct := by
  -- The induction is on the open paths, as in the definition.
  induction opened : (openPaths defs chain).length using
    Nat.strong_induction_on generalizing chain value with
  | h count ih =>
    rw [resolveRefs]
    refine distinct_inlineRefs ?_ distinct
    intro path target isTarget
    split at isTarget
    · rename_i isNew
      split at isTarget
      · rename_i found resolved
        cases isTarget
        have shrinks := openPaths_shrink isNew resolved
        obtain ⟨name, -, isDef⟩ := Option.bind_eq_some_iff.mp resolved
        exact ih _ (opened ▸ shrinks) (path :: chain) (defsDistinct.lookup isDef) rfl
      · cases isTarget
    · cases isTarget
      exact distinct_objectType

theorem distinct_remove (distinct : value.Distinct) (key : String) :
    (value.remove key).Distinct := by
  cases value with
  | object fields =>
    exact (distinct_object_iff _).mpr (((distinct_object_iff _).mp distinct).remove key)
  | _ => exact distinct

theorem distinct_get {field : Value}
    (distinct : value.Distinct) (found : value.get key = some field) : field.Distinct := by
  cases value with
  | object fields => exact ((distinct_object_iff _).mp distinct).lookup found
  | _ => cases found

theorem distinct_extractDefs {defs : Fields}
    (distinct : schema.Distinct) (found : extractDefs schema = some defs) :
    DistinctFields defs := by
  unfold extractDefs at found
  split at found
  · rename_i entries isObject
    cases found
    refine (distinct_object_iff _).mp ?_
    rcases Option.or_eq_some_iff.mp isObject with first | ⟨-, isLast⟩
    · rcases Option.or_eq_some_iff.mp first with isFirst | ⟨-, isSecond⟩
      · exact distinct_get distinct isFirst
      · exact distinct_get distinct isSecond
    · exact distinct_get distinct isLast
  · cases found

theorem distinct_inlineRoot (distinct : schema.Distinct) : (inlineRoot schema).Distinct := by
  unfold inlineRoot
  refine distinct_remove (distinct_remove (distinct_remove ?_ _) _) _
  split
  · rename_i defs found
    exact distinct_resolveRefs (distinct_extractDefs distinct found) [] distinct
  · exact distinct

theorem inlineRoot_of_absent (absent : ∀ key ∈ ["$defs", "defs", "definitions"],
      schema.get key = none) :
    inlineRoot schema = schema := by
  have noDefs := absent "$defs" (by simp)
  have noPlain := absent "defs" (by simp)
  have noDefinitions := absent "definitions" (by simp)
  have nothing : extractDefs schema = none := by
    rw [extractDefs, noDefs, noPlain, noDefinitions]
    rfl
  rw [inlineRoot, nothing]
  dsimp only
  rw [Value.remove_of_get_none _ noDefs, Value.remove_of_get_none _ noPlain,
    Value.remove_of_get_none _ noDefinitions]

theorem visitedOf_append (left right : Fields) :
    visitedOf (left ++ right) = visitedOf left ++ visitedOf right :=
  flatMap_append

theorem schemasOf_append (left right : Fields) :
    schemasOf (left ++ right) = schemasOf left ++ schemasOf right := by
  rw [schemasOf, filter_append, visitedOf_append, schemasOf, schemasOf]

theorem guardRoot_spec {fields : Fields} (distinct : DistinctFields fields) :
    ∃ guarded, guardRoot (.object fields) = .object guarded ∧
      DistinctFields guarded ∧ Alike guarded fields ∧
      visitedOf guarded = visitedOf fields ∧
      schemasOf guarded = schemasOf fields ∧
      lookup "type" guarded ≠ none := by
  cases isType : lookup "type" fields with
  | some type =>
    refine ⟨fields, by simp only [guardRoot, isType], distinct,
      ⟨fun _ _ => rfl, fun _ => Iff.rfl, Iff.rfl⟩, rfl, rfl, ?_⟩
    rw [isType]
    simp
  | none =>
    have typed := insertField_of_lookup_none (.string "object") isType
    have typedDistinct := distinct.insert "type" (.string "object")
    have same : ∀ key, key ≠ "type" → key ≠ "properties" →
        lookup key (orInsert "properties" (.object [])
          (insertField "type" (.string "object") fields)) = lookup key fields := by
      intro key notType notProperties
      rw [lookup_orInsert, if_neg (Ne.symm notProperties), Option.or_none,
        lookup_insertField_ne _ _ notType]
    have isText : lookup "type" (orInsert "properties" (.object [])
        (insertField "type" (.string "object") fields)) = some (.string "object") := by
      rw [lookup_orInsert, lookup_insertField_self, Option.some_or]
    have others : ∀ key ∈ strippedKeys ++ ["format", "anyOf"],
        key ≠ "type" ∧ key ≠ "properties" := by
      decide
    refine ⟨orInsert "properties" (.object []) (insertField "type" (.string "object") fields),
      by simp only [guardRoot, isType], ?_, ⟨?_, ?_, ?_⟩, ?_, ?_, ?_⟩
    · exact distinct_orInsert typedDistinct _ ((distinct_object_iff []).mpr ⟨nodup_nil, by simp⟩)
    · intro key listed
      have isOther : key ∈ strippedKeys ++ ["format", "anyOf"] := by
        simp only [mem_append, mem_cons, not_mem_nil, or_false] at listed ⊢
        tauto
      exact same key (others key isOther).1 (others key isOther).2
    · intro types
      rw [isText, isType]
      simp
    · rw [same "anyOf" (by decide) (by decide)]
    · unfold orInsert
      split
      · rw [typed, visitedOf_append]
        exact append_nil _
      · rename_i absent
        rw [insertField_of_lookup_none _ absent, typed, visitedOf_append, visitedOf_append]
        exact (append_nil _).trans (append_nil _)
    · unfold orInsert
      split
      · rw [typed, schemasOf_append]
        exact append_nil _
      · rename_i absent
        rw [insertField_of_lookup_none _ absent, typed, schemasOf_append, schemasOf_append]
        exact (append_nil _).trans (append_nil _)
    · rw [isText]
      simp

theorem type_kept {fields : Fields} (f : Value → Value) (depth : Nat)
    (distinct : DistinctFields fields) (typed : lookup "type" fields ≠ none) :
    lookup "type" (mapChildren f (normalizeFields depth fields)) ≠ none := by
  rw [lookup_mapChildren, Ne, Option.map_eq_none_iff,
    lookup_normalizeFields depth distinct (by decide), Option.or_eq_none_iff]
  rintro ⟨absent, -⟩
  rcases lookup_type_stripFields distinct with
    ⟨same, -⟩ | ⟨-, text, -, -, rewritten⟩
  · exact typed (same ▸ absent)
  · rw [rewritten] at absent
    cases absent

theorem guarded_stays_iff {fields guarded : Fields} (distinct : DistinctFields fields)
    (guardedDistinct : DistinctFields guarded) (alike : Alike guarded fields)
    (visited : visitedOf guarded = visitedOf fields) (typed : lookup "type" guarded ≠ none)
    (clean : CleanNode 0 guarded) :
    sanitizeForGemini (.object guarded) = .object guarded ↔
      sanitizeNode (.object fields) 0 = .object fields := by
  have nothing : inlineRoot (.object guarded) = .object guarded := by
    refine inlineRoot_of_absent fun key listed => ?_
    have isStripped : ∀ key ∈ ["$defs", "defs", "definitions"], key ∈ strippedKeys := by decide
    exact clean.stripped key (isStripped key listed)
  have pass (nodes : Fields) : sanitizeNode (.object nodes) 0 =
      .object (mapChildren (sanitizeLevels maxDepth) (normalizeFields 0 nodes)) := rfl
  have kept := type_kept (sanitizeLevels maxDepth) 0 guardedDistinct typed
  have unguarded : guardRoot (sanitizeNode (.object guarded) 0) =
      sanitizeNode (.object guarded) 0 := by
    rw [pass, guardRoot]
    split
    · rfl
    · rename_i absent
      exact absurd absent kept
  rw [sanitizeForGemini, nothing, unguarded, pass, pass, Value.object.injEq,
    Value.object.injEq, pass_eq_self_iff _ 0 guardedDistinct,
    pass_eq_self_iff _ 0 distinct, alike.settled_iff, visited]

end Root

/-! ## Schemas -/

theorem Always.imp {select fewer : Nat → Fields → List Value}
    (always : Always select good depth value)
    (subset : ∀ depth fields, fewer depth fields ⊆ select depth fields) :
    Always fewer good depth value := by
  intro deeper fields path
  refine always deeper fields ?_
  clear always
  induction path with
  | here => exact .here _ _
  | inside selected _ ih => exact .inside (subset _ _ selected) ih

/-- A schema that is clean at every position and stays when sanitized. -/
def SanitizedClean (schema : Value) : Prop :=
  Always (fun _ => schemasOf) CleanNode 0 (sanitizeForGemini schema) ∧
    sanitizeForGemini (sanitizeForGemini schema) = sanitizeForGemini schema

/-- A schema whose nodes merge cleanly, with one type at each position. -/
def MergesCleanlyThroughout (schema : Value) : Prop := Always visitedAfter
      (fun depth fields => depth ≤ maxDepth → MergesCleanly fields)
      0 (inlineRoot schema) ∧
    Always schemasAfter (fun depth fields => depth ≤ maxDepth → HasOneType fields)
      0 (inlineRoot schema)

/--
The sanitizer gives a clean schema that it leaves as it is exactly where no
`allOf` of a visited node brings back what was stripped and no type at a schema
position is an array without texts.
-/
theorem sanitized_clean_iff (schema : Value) (distinct : schema.Distinct) :
    SanitizedClean schema ↔ MergesCleanlyThroughout schema := by
  have rootDistinct := distinct_inlineRoot distinct
  have levels : maxDepth + 1 + 0 = maxDepth + 1 := rfl
  obtain ⟨staysIff, cleanIff⟩ := sanitizeLevels_spec levels rootDistinct
  have sanitized := distinct_sanitizeLevels (maxDepth + 1) rootDistinct
  rw [SanitizedClean, MergesCleanlyThroughout, sanitizeForGemini, sanitizeNode, Nat.sub_zero]
  generalize inlineRoot schema = root at *
  cases root with
  | object fields =>
    obtain ⟨nodes, isObject⟩ : ∃ nodes,
        sanitizeLevels (maxDepth + 1) (.object fields) = .object nodes :=
      ⟨_, rfl⟩
    rw [isObject] at cleanIff staysIff sanitized ⊢
    have nodesDistinct := (distinct_object_iff nodes).mp sanitized
    obtain ⟨guarded, isGuarded, guardedDistinct, alike, visited, schemas,
      typed⟩ := guardRoot_spec nodesDistinct
    have guardedIff : Always (fun _ => schemasOf) CleanNode 0 (.object guarded) ↔
          Always (fun _ => schemasOf) CleanNode 0 (.object nodes) := by
      rw [always_object, always_object, alike.cleanNode_iff, schemas]
    rw [isGuarded, guardedIff, cleanIff]
    constructor
    · rintro ⟨clean, stays⟩
      have cleanRoot := ((always_object 0 guarded).mp (guardedIff.mpr (cleanIff.mpr clean))).1
      have walked := (guarded_stays_iff nodesDistinct guardedDistinct alike
        visited typed cleanRoot).mp stays
      exact ⟨staysIff.mp walked, fun depth node path within => (clean depth node path within).2⟩
    · rintro ⟨merges, oneType⟩
      have mergesAt := merges.imp fun depth node => schemasOf_subset (normalizeFields depth node)
      have clean : Always schemasAfter (fun depth node =>
          depth ≤ maxDepth → MergesCleanly node ∧ HasOneType node) 0
            (.object fields) := fun depth node path within =>
        ⟨mergesAt depth node path within, oneType depth node path within⟩
      have cleanRoot := ((always_object 0 guarded).mp (guardedIff.mpr (cleanIff.mpr clean))).1
      exact ⟨clean, (guarded_stays_iff nodesDistinct guardedDistinct alike
        visited typed cleanRoot).mpr (staysIff.mpr merges)⟩
  | _ =>
    exact ⟨fun _ => ⟨always_of_not_object 0 rfl, always_of_not_object 0 rfl⟩,
      fun _ => ⟨always_of_not_object 0 rfl, rfl⟩⟩

/-- A nullable type with a pattern, which is stripped. -/
def nullableText : Value := .object [("type", .array [.string "string", .string "null"]),
    ("pattern", .string "^a")]

theorem nullableText_distinct : nullableText.Distinct := .object (by decide) fun field listed => by
    simp only [mem_cons, not_mem_nil, or_false] at listed
    rcases listed with rfl | rfl
    · refine .array fun element isElement => ?_
      simp only [mem_cons, not_mem_nil, or_false] at isElement
      rcases isElement with rfl | rfl <;> exact .string _
    · exact .string _

theorem nullableText_sanitized_clean : nullableText.Distinct ∧ SanitizedClean nullableText := by
  refine ⟨nullableText_distinct,
    (sanitized_clean_iff nullableText nullableText_distinct).mpr ⟨?_, ?_⟩⟩
  · refine (always_object 0 _).mpr ⟨fun _ => ⟨?_, ?_, ?_⟩, ?_⟩
    · intro mem isMember
      cases isMember
    · intro absent
      cases absent
    · intro _ format isFormat
      cases isFormat
    · intro child isChild
      cases isChild
  · refine (always_object 0 _).mpr ⟨fun _ => ⟨?_, ?_⟩, ?_⟩
    · intro types isType
      cases isType
      decide
    · intro absent
      cases absent
    · intro child isChild
      cases isChild

/-- A pattern in a member of `allOf` is still there after sanitizing. -/
theorem merged_pattern_stays : ¬ SanitizedClean
      (.object [("allOf", .array [.object [("pattern", .string "^a")]])]) := by
  rintro ⟨clean, -⟩
  have root := clean 0 [("pattern", .string "^a"), ("type", .string "object"),
      ("properties", .object [])] (.here 0 _)
  cases root.stripped "pattern" (by decide)

end Codex.Gemini.SanitizedSchemas
