import Mathlib.Data.List.Basic

/-!
# JSON values

The model of `serde_json::Value`.  The workspace builds `serde_json` with
`preserve_order`, so an object is its fields in insertion order, and removing
a field moves the last field into its place.
-/

namespace Codex.Protocol.JsonValue

open List

inductive Value where
  | null
  | bool (value : Bool)
  | number (literal : String)
  | string (value : String)
  | array (elements : List Value)
  | object (fields : List (String × Value))
deriving Inhabited

/-! ## Decidable equality -/

mutual

/-- Decidable equality of two values, by recursion on the first. -/
def Value.decEq : (left right : Value) → Decidable (left = right)
  | .null, .null => isTrue rfl
  | .bool left, .bool right => decidable_of_iff (left = right) (by simp)
  | .number left, .number right => decidable_of_iff (left = right) (by simp)
  | .string left, .string right => decidable_of_iff (left = right) (by simp)
  | .array left, .array right =>
    have := decEqElements left right
    decidable_of_iff (left = right) (by simp)
  | .object left, .object right =>
    have := decEqFields left right
    decidable_of_iff (left = right) (by simp)
  | .null, .bool _ | .null, .number _ | .null, .string _
  | .null, .array _ | .null, .object _ => isFalse (by simp)
  | .bool _, .null | .bool _, .number _ | .bool _, .string _
  | .bool _, .array _ | .bool _, .object _ => isFalse (by simp)
  | .number _, .null | .number _, .bool _ | .number _, .string _
  | .number _, .array _ | .number _, .object _ => isFalse (by simp)
  | .string _, .null | .string _, .bool _ | .string _, .number _
  | .string _, .array _ | .string _, .object _ => isFalse (by simp)
  | .array _, .null | .array _, .bool _ | .array _, .number _
  | .array _, .string _ | .array _, .object _ => isFalse (by simp)
  | .object _, .null | .object _, .bool _ | .object _, .number _
  | .object _, .string _ | .object _, .array _ => isFalse (by simp)

def decEqElements : (left right : List Value) → Decidable (left = right)
  | [], [] => isTrue rfl
  | [], _ :: _ => isFalse (by simp)
  | _ :: _, [] => isFalse (by simp)
  | left :: lefts, right :: rights =>
    have := left.decEq right
    have := decEqElements lefts rights
    decidable_of_iff (left = right ∧ lefts = rights) (by simp)

def decEqFields : (left right : List (String × Value)) → Decidable (left = right)
  | [], [] => isTrue rfl
  | [], _ :: _ => isFalse (by simp)
  | _ :: _, [] => isFalse (by simp)
  | (leftKey, left) :: lefts, (rightKey, right) :: rights =>
    have := left.decEq right
    have := decEqFields lefts rights
    decidable_of_iff (leftKey = rightKey ∧ left = right ∧ lefts = rights) (by simp [and_assoc])

end

instance : DecidableEq Value := Value.decEq

/-! ## Reading -/

/-- The value of a field, as a lookup in the field list. -/
def lookup (key : String) : List (String × Value) → Option Value
  | [] => none
  | (name, value) :: rest => if name = key then some value else lookup key rest

namespace Value

def get (value : Value) (key : String) : Option Value :=
  match value with
  | .object fields => lookup key fields
  | _ => none

def asStr : Value → Option String
  | .string text => some text
  | _ => none

def asBool : Value → Option Bool
  | .bool value => some value
  | _ => none

/-- `value.get(key).and_then(Value::as_str)`. -/
def getStr (value : Value) (key : String) : Option String := (value.get key).bind asStr

def emptyObject : Value := .object []

def isObject : Value → Bool
  | .object _ => true
  | _ => false

end Value

/-! ## Writing -/

/-- `Map::insert`: overwrite in place, or append a new field. -/
def insertField (key : String) (value : Value) : List (String × Value) → List (String × Value)
  | [] => [(key, value)]
  | (name, old) :: rest =>
    if name = key then (name, value) :: rest
    else (name, old) :: insertField key value rest

/--
`Map::remove` under `preserve_order`: the last field takes the place of the
removed one.
-/
def removeField (key : String) : List (String × Value) → List (String × Value)
  | [] => []
  | (name, old) :: rest =>
    if name = key then
      match rest.getLast? with
      | none => []
      | some last => last :: rest.dropLast
    else (name, old) :: removeField key rest

namespace Value

def insert (value : Value) (key : String) (field : Value) : Value :=
  match value with
  | .object fields => .object (insertField key field fields)
  | other => other

def remove (value : Value) (key : String) : Value :=
  match value with
  | .object fields => .object (removeField key fields)
  | other => other

end Value

/-! ## Frame lemmas -/

variable (key : String) (value : Value)

theorem lookup_insertField_ne {other : String} (value : Value) (different : other ≠ key)
    (fields : List (String × Value)) :
    lookup other (insertField key value fields) = lookup other fields := by
  induction fields with
  | nil => simp [insertField, lookup, different.symm]
  | cons field rest ih =>
    obtain ⟨name, old⟩ := field
    by_cases found : name = key
    · subst found
      simp [insertField, lookup, different.symm]
    · simp only [insertField, found, if_false, lookup, ih]

theorem lookup_insertField_self (fields : List (String × Value)) :
    lookup key (insertField key value fields) = some value := by
  induction fields with
  | nil => simp [insertField, lookup]
  | cons field rest ih =>
    obtain ⟨name, old⟩ := field
    by_cases found : name = key
    · simp [insertField, lookup, found]
    · simp only [insertField, found, if_false, lookup, ih]

theorem removeField_of_lookup_none {fields : List (String × Value)}
    (absent : lookup key fields = none) : removeField key fields = fields := by
  induction fields with
  | nil => rfl
  | cons field rest ih =>
    obtain ⟨name, old⟩ := field
    by_cases found : name = key
    · simp [lookup, found] at absent
    · simp only [lookup, found, if_false] at absent
      simp [removeField, found, ih absent]

/--
Whether every key of an object occurs once, as in every map that `serde_json`
builds.
-/
def Value.KeysDistinct : Value → Prop
  | .object fields => (fields.map Prod.fst).Nodup
  | _ => True

/-- With distinct keys the last field can be looked up first. -/
theorem lookup_rotate {name : String} (value : Value) {front : List (String × Value)}
    (distinct : name ∉ front.map Prod.fst) :
    lookup key ((name, value) :: front) = lookup key (front ++ [(name, value)]) := by
  induction front with
  | nil => rfl
  | cons field rest ih =>
    obtain ⟨other, old⟩ := field
    simp only [map_cons, mem_cons, not_or] at distinct
    have inner := ih distinct.2
    simp only [cons_append, lookup] at inner ⊢
    rw [← inner]
    by_cases first : name = key
    · have second : other ≠ key := by
        rintro rfl
        exact distinct.1 first
      simp [first, second]
    · simp [first]

theorem lookup_removeField_ne {other : String} (different : other ≠ key)
    {fields : List (String × Value)} (distinct : (fields.map Prod.fst).Nodup) :
    lookup other (removeField key fields) = lookup other fields := by
  induction fields with
  | nil => rfl
  | cons field rest ih =>
    obtain ⟨name, old⟩ := field
    rw [map_cons, nodup_cons] at distinct
    by_cases found : name = key
    · subst found
      rcases eq_nil_or_concat rest with rfl | ⟨front, last, rfl⟩
      · simp [removeField, lookup, different.symm]
      · obtain ⟨lastName, lastValue⟩ := last
        have fresh : lastName ∉ front.map Prod.fst := by
          have separated := distinct.2
          simp only [concat_eq_append, map_append, nodup_append] at separated
          intro mem
          exact separated.2.2 lastName mem lastName (by simp) rfl
        simp only [removeField, if_true, concat_eq_append, getLast?_concat, dropLast_concat, lookup,
          different.symm, if_false]
        exact lookup_rotate other lastValue fresh
    · simp only [removeField, found, if_false, lookup, ih distinct.2]

theorem Value.getStr_remove_ne {key other : String}
    (different : other ≠ key) (distinct : value.KeysDistinct) :
    (value.remove key).getStr other = value.getStr other := by
  cases value with
  | object fields =>
    simp only [Value.remove, Value.getStr, Value.get, lookup_removeField_ne key different distinct]
  | _ => rfl

@[simp]
theorem Value.get_insert_ne (field : Value) {key other : String} (different : other ≠ key) :
    (value.insert key field).get other = value.get other := by
  cases value <;>
    simp [Value.insert, Value.get, lookup_insertField_ne, different]

@[simp]
theorem Value.getStr_insert_ne (field : Value) {key other : String} (different : other ≠ key) :
    (value.insert key field).getStr other = value.getStr other := by
  rw [Value.getStr, Value.get_insert_ne _ _ different, Value.getStr]

theorem Value.remove_of_get_none {key : String} (absent : value.get key = none) :
    value.remove key = value := by
  cases value with
  | object fields => simp only [Value.remove, removeField_of_lookup_none key absent]
  | _ => rfl

/-! ## Text form -/

/--
The text form of `serde_json`: `serde_json::from_str::<Value>` and
`serde_json::to_string` of a value.
-/
structure JsonCodec where
  fromStr : String → Option Value
  toText : Value → String

/-- The part of `serde_json` that reads and writes the JSON constants. -/
def constantCodec : JsonCodec where
  fromStr
    | "null" => some .null
    | "true" => some (.bool true)
    | "false" => some (.bool false)
    | "[]" => some (.array [])
    | "\x7b\x7d" => some .emptyObject
    | _ => none
  toText
    | .null => "null"
    | .bool true => "true"
    | .bool false => "false"
    | .array _ => "[]"
    | _ => "\x7b\x7d"

end Codex.Protocol.JsonValue
