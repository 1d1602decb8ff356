import Codex.Protocol.DistinctKeys
import Codex.Rust.Text

/-!
# The schema sanitizer

`sanitize_for_gemini` of `provider-gemini/src/schema_sanitize.rs`.  It inlines
references to the definitions of a schema, then walks the schema from its root
and strips, rewrites and merges the keys of every node it visits.
-/

namespace Codex.Gemini.SchemaSanitizer

open Protocol.JsonValue
open Rust.Text (stripPrefix? stripPrefix?_eq_some)

abbrev Fields := List (String × Value)

def maxDepth : Nat := 16

def metadataKeys : List String := ["$schema", "$id", "$comment", "title", "examples", "readOnly",
    "writeOnly", "deprecated", "default"]

def supportedFormats : List String :=
  ["date-time", "date", "time", "duration", "email", "hostname", "ipv4",
    "ipv6", "uri", "uuid", "enum", "int32", "int64", "float", "double",
    "byte"]

def objectType : Value := .object [("type", .string "object")]

/-! ## References -/

def extractDefs (schema : Value) : Option Fields :=
  match ((schema.get "$defs").or (schema.get "defs")).or
      (schema.get "definitions") with
  | some (.object defs) => some defs
  | _ => none

/-- The beginnings of a path to a definition. -/
def refMarkers : List String := ["#/$defs/", "#/defs/", "#/definitions/"]

def resolveRefPath (path : String) (defs : Fields) : Option Value :=
  (refMarkers.findSome? (stripPrefix? path)).bind fun name => lookup name defs

mutual

/-- `resolve_refs`, given what becomes of a node with a reference. -/
def inlineRefs (inlined : String → Option Value) : Value → Value
  | .object fields =>
    match ((lookup "$ref" fields).bind Value.asStr).bind inlined with
    | some value => value
    | none => .object (inlineFields inlined fields)
  | .array elements => .array (inlineElements inlined elements)
  | value => value

def inlineFields (inlined : String → Option Value) : Fields → Fields
  | [] => []
  | (key, value) :: rest => (key, inlineRefs inlined value) :: inlineFields inlined rest

def inlineElements (inlined : String → Option Value) : List Value → List Value
  | [] => []
  | value :: rest => inlineRefs inlined value :: inlineElements inlined rest

end

/-- The paths to definitions that a chain does not hold. -/
def openPaths (defs : Fields) (chain : List String) : List String :=
  (refMarkers.flatMap fun marker => defs.map fun entry => marker ++ entry.1)
    |>.filter fun path => decide (path ∉ chain)

theorem openPaths_shrink {defs : Fields} {chain : List String}
    {path : String} {target : Value} (isNew : path ∉ chain)
    (resolved : resolveRefPath path defs = some target) :
    (openPaths defs (path :: chain)).length < (openPaths defs chain).length := by
  obtain ⟨name, stripped, found⟩ := Option.bind_eq_some_iff.mp resolved
  obtain ⟨marker, isMarker, rest⟩ := List.exists_of_findSome?_eq_some stripped
  have whole := stripPrefix?_eq_some path marker name rest
  have isPath : path ∈ refMarkers.flatMap fun marker =>
      defs.map fun entry => marker ++ entry.1 :=
    List.mem_flatMap.mpr ⟨marker, isMarker, List.mem_map.mpr
      ⟨(name, target), mem_of_lookup found, whole.symm⟩⟩
  have narrowed : openPaths defs (path :: chain) =
      (openPaths defs chain).filter fun other => decide (other ≠ path) := by
    simp [openPaths, List.filter_filter]
  rw [narrowed, List.length_filter_lt_length_iff_exists]
  exact ⟨path, List.mem_filter.mpr ⟨isPath, by simpa using isNew⟩, by simp⟩

def resolveRefs (defs : Fields) (chain : List String) (value : Value) : Value :=
  inlineRefs (fun path =>
    if _isNew : path ∉ chain then
      match _resolved : resolveRefPath path defs with
      | some target => some (resolveRefs defs (path :: chain) target)
      | none => none
    else some objectType) value
termination_by (openPaths defs chain).length
decreasing_by exact openPaths_shrink _isNew _resolved

/-! ## Nodes -/

def textsOf (elements : List Value) : List String := elements.filterMap Value.asStr

def rewriteNullableType (fields : Fields) : Fields :=
  match lookup "type" fields with
  | some (.array types) =>
    let hasNull := (textsOf types).any (· == "null")
    let nonNull := (textsOf types).filter (· != "null")
    if hasNull then
      insertField "nullable" (.bool true)
        (insertField "type" (.string (nonNull.headD "string")) fields)
    else
      match nonNull with
      | first :: _ => insertField "type" (.string first) fields
      | [] => fields
  | _ => fields

/-- `entry(key).or_insert(value)`. -/
def orInsert (key : String) (value : Value) (fields : Fields) : Fields :=
  match lookup key fields with
  | some _ => fields
  | none => insertField key value fields

/-- `push` of the elements that an array does not have yet, as written. -/
def pushMissing (elements more : List Value) : List Value := more.foldl (fun known element =>
    if element ∈ known then known else known ++ [element]) elements

/-- The fields of an `allOf` member that are merged into its parent. -/
def mergeField (fields : Fields) (key : String) (value : Value) : Fields :=
  if key = "properties" then
    match value with
    | .object more =>
      let fields := orInsert "properties" (.object []) fields
      match lookup "properties" fields with
      | some (.object existing) =>
        insertField "properties" (.object (more.foldl
            (fun known entry => orInsert entry.1 entry.2 known)
            existing))
          fields
      | _ => fields
    | _ => fields
  else if key = "required" then
    match value with
    | .array more =>
      let fields := orInsert "required" (.array []) fields
      match lookup "required" fields with
      | some (.array existing) => insertField "required" (.array (pushMissing existing more)) fields
      | _ => fields
    | _ => fields
  else orInsert key value fields

def mergeMember (fields : Fields) : Value → Fields
  | .object mem => mem.foldl (fun merged entry => mergeField merged entry.1 entry.2) fields
  | _ => fields

def allOfMembers (fields : Fields) : List Value :=
  match lookup "allOf" fields with
  | some (.array members) => members
  | _ => []

def mergeAllOf (fields : Fields) : Fields :=
  (allOfMembers fields).foldl mergeMember (removeField "allOf" fields)

def demoteOneOf (depth : Nat) (fields : Fields) : Fields :=
  match lookup "oneOf" fields with
  | some (.array members) =>
    if depth ≤ 1 then insertField "anyOf" (.array members) (removeField "oneOf" fields)
    else removeField "oneOf" fields
  | _ => removeField "oneOf" fields

def capAnyOf (depth : Nat) (fields : Fields) : Fields :=
  if 2 < depth then removeField "anyOf" fields else fields

def normalizeCombinators (depth : Nat) (fields : Fields) : Fields :=
  capAnyOf depth (demoteOneOf depth (mergeAllOf fields))

/-- The keys that a node is stripped of before its type is rewritten. -/
def leadingKeys : List String := metadataKeys ++ ["$ref", "$defs", "defs", "definitions"]

def removeKeys (keys : List String) (fields : Fields) : Fields :=
  keys.foldl (fun fields key => removeField key fields) fields

def isUnsupportedFormat : Value → Bool
  | .string format => decide (format ∉ supportedFormats)
  | _ => false

def filterFormat (fields : Fields) : Fields :=
  match lookup "format" fields with
  | some format =>
    if isUnsupportedFormat format then removeField "format" fields
    else fields
  | none => fields

/-- `sanitize_node` before its combinators. -/
def stripFields (fields : Fields) : Fields := filterFormat (removeField "pattern"
    (rewriteNullableType (removeKeys leadingKeys fields)))

/-- `sanitize_node` before it recurses. -/
def normalizeFields (depth : Nat) (fields : Fields) : Fields :=
  normalizeCombinators depth (stripFields fields)

/-- Apply a function to the schemas that a field holds. -/
def mapSchemas (f : Value → Value) (key : String) (value : Value) : Value :=
  if key = "properties" ∨ key = "patternProperties" then
    match value with
    | .object props => .object (props.map fun entry => (entry.1, f entry.2))
    | value => value
  else if key = "items" then f value
  else if key = "anyOf" then
    match value with
    | .array members => .array (members.map f)
    | value => value
  else if key = "additionalProperties" then
    match value with
    | .object fields => f (.object fields)
    | value => value
  else value

/-- The recursion of `sanitize_node`: each field is looked up once. -/
def mapChildren (f : Value → Value) (fields : Fields) : Fields :=
  fields.map fun entry => (entry.1, mapSchemas f entry.1 entry.2)

/-- `sanitize_node`, with the levels that are left before the depth cap. -/
def sanitizeLevels : Nat → Value → Value
  | 0, _ => objectType
  | levels + 1, .object fields =>
    .object (mapChildren (sanitizeLevels levels) (normalizeFields (maxDepth - levels) fields))
  | _ + 1, value => value

def sanitizeNode (value : Value) (depth : Nat) : Value :=
  sanitizeLevels (maxDepth + 1 - depth) value

/-! ## The root -/

/-- The schema with its references inlined and its definitions removed. -/
def inlineRoot (schema : Value) : Value :=
  let resolved := match extractDefs schema with
    | some defs => resolveRefs defs [] schema
    | none => schema
  ((resolved.remove "$defs").remove "defs").remove "definitions"

def guardRoot : Value → Value
  | .object fields =>
    match lookup "type" fields with
    | some _ => .object fields
    | none =>
      .object (orInsert "properties" (.object []) (insertField "type" (.string "object") fields))
  | value => value

def sanitizeForGemini (schema : Value) : Value := guardRoot (sanitizeNode (inlineRoot schema) 0)

end Codex.Gemini.SchemaSanitizer
