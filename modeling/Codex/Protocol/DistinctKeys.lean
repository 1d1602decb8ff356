import Codex.Protocol.JsonValue

/-!
# Values with distinct keys

The keys of a `serde_json` map are distinct, at every depth of a value.  The
operations on fields keep that, and with distinct keys a removed field is gone
and every other field is as before.
-/

namespace Codex.Protocol.JsonValue

open List

inductive Value.Distinct : Value → Prop
  | null : Distinct .null
  | bool (value) : Distinct (.bool value)
  | number (literal) : Distinct (.number literal)
  | string (value) : Distinct (.string value)
  | array {elements} (each : ∀ element ∈ elements, Distinct element) : Distinct (.array elements)
  | object {fields} (keys : (fields.map Prod.fst).Nodup)
      (each : ∀ field ∈ fields, Distinct field.2) :
      Distinct (.object fields)

structure DistinctFields (fields : List (String × Value)) : Prop where
  keys : (fields.map Prod.fst).Nodup
  each : ∀ field ∈ fields, field.2.Distinct

theorem distinct_object_iff (fields : List (String × Value)) :
    (Value.object fields).Distinct ↔ DistinctFields fields :=
  ⟨fun distinct => by
    cases distinct with
    | object keys each => exact ⟨keys, each⟩,
  fun distinct => .object distinct.keys distinct.each⟩

theorem distinct_array_iff (elements : List Value) :
    (Value.array elements).Distinct ↔ ∀ element ∈ elements, element.Distinct :=
  ⟨fun distinct => by
    cases distinct with
    | array each => exact each,
  .array⟩

/-! ## Lookups -/

variable {fields : List (String × Value)} {key : String} {value : Value}

theorem mem_of_lookup (found : lookup key fields = some value) : (key, value) ∈ fields := by
  induction fields with
  | nil => cases found
  | cons field rest ih =>
    obtain ⟨name, first⟩ := field
    rw [lookup] at found
    split at found
    · rename_i same
      cases found
      rw [same]
      exact mem_cons_self
    · exact mem_cons_of_mem _ (ih found)

theorem lookup_eq_none_iff : lookup key fields = none ↔ key ∉ fields.map Prod.fst := by
  induction fields with
  | nil => simp [lookup]
  | cons field rest ih =>
    obtain ⟨name, value⟩ := field
    rw [lookup, map_cons, mem_cons, not_or]
    by_cases same : name = key
    · simp [same]
    · simp [same, Ne.symm same, ih]

theorem DistinctFields.lookup (distinct : DistinctFields fields)
    (found : lookup key fields = some value) : value.Distinct :=
  distinct.each _ (mem_of_lookup found)

/-! ## Removing -/

theorem removeField_perm (key : String) {fields : List (String × Value)}
    (keys : (fields.map Prod.fst).Nodup) :
    (removeField key fields).Perm (fields.filter fun field => field.1 != key) := by
  induction fields with
  | nil => exact .nil
  | cons field rest ih =>
    obtain ⟨name, value⟩ := field
    rw [map_cons, nodup_cons] at keys
    by_cases found : name = key
    · subst found
      have untouched : rest.filter (fun field => field.1 != name) = rest := by
        refine filter_eq_self.mpr fun field listed => ?_
        exact bne_iff_ne.mpr fun same => keys.1 (mem_map.mpr ⟨field, listed, same⟩)
      simp only [removeField, if_true, filter_cons, bne_self_eq_false,
        Bool.false_eq_true, if_false, untouched]
      rcases eq_nil_or_concat rest with rfl | ⟨front, last, rfl⟩
      · exact .nil
      · simp only [concat_eq_append, getLast?_concat, dropLast_concat]
        exact (perm_append_singleton last front).symm
    · simp only [removeField, found, if_false, filter_cons, bne_iff_ne.mpr found, if_true]
      exact .cons _ (ih keys.2)

theorem DistinctFields.remove (distinct : DistinctFields fields) (key : String) :
    DistinctFields (removeField key fields) := by
  have perm := removeField_perm key distinct.keys
  refine ⟨?_, fun field listed => ?_⟩
  · rw [(perm.map Prod.fst).nodup_iff]
    exact distinct.keys.sublist (filter_sublist.map Prod.fst)
  · exact distinct.each field (mem_filter.mp (perm.mem_iff.mp listed)).1

theorem lookup_removeField_self (key : String)
    {fields : List (String × Value)} (keys : (fields.map Prod.fst).Nodup) :
    lookup key (removeField key fields) = none := by
  rw [lookup_eq_none_iff]
  intro listed
  obtain ⟨field, isField, same⟩ := mem_map.mp listed
  have kept := mem_filter.mp ((removeField_perm key keys).mem_iff.mp isField)
  exact absurd same (bne_iff_ne.mp kept.2)

/-! ## Inserting -/

theorem insertField_of_lookup_none (value : Value) (absent : lookup key fields = none) :
    insertField key value fields = fields ++ [(key, value)] := by
  induction fields with
  | nil => rfl
  | cons field rest ih =>
    obtain ⟨name, old⟩ := field
    rw [lookup] at absent
    split at absent
    · cases absent
    · rename_i differs
      rw [insertField, if_neg differs, ih absent, cons_append]

theorem mem_insertField {field : String × Value} (listed : field ∈ insertField key value fields) :
    field ∈ fields ∨ field = (key, value) := by
  induction fields with
  | nil => exact .inr (mem_singleton.mp listed)
  | cons first rest ih =>
    obtain ⟨name, old⟩ := first
    rw [insertField] at listed
    split at listed
    · rename_i same
      rcases mem_cons.mp listed with isFirst | later
      · rw [isFirst, same]
        exact .inr rfl
      · exact .inl (mem_cons_of_mem _ later)
    · rcases mem_cons.mp listed with isFirst | later
      · rw [isFirst]
        exact .inl mem_cons_self
      · exact (ih later).imp_left (mem_cons_of_mem _)

theorem keys_insertField_of_some (value : Value) {old : Value}
    (found : lookup key fields = some old) :
    (insertField key value fields).map Prod.fst = fields.map Prod.fst := by
  induction fields with
  | nil => cases found
  | cons first rest ih =>
    obtain ⟨name, before⟩ := first
    rw [lookup] at found
    rw [insertField]
    split at found
    · rename_i same
      rw [if_pos same, map_cons, map_cons]
    · rename_i differs
      rw [if_neg differs, map_cons, map_cons, ih found]

theorem DistinctFields.insert (distinct : DistinctFields fields) (key : String)
    (new : value.Distinct) : DistinctFields (insertField key value fields) := by
  refine ⟨?_, fun field listed => ?_⟩
  · cases found : JsonValue.lookup key fields with
    | some old =>
      rw [keys_insertField_of_some value found]
      exact distinct.keys
    | none =>
      rw [insertField_of_lookup_none value found, map_append, nodup_append]
      refine ⟨distinct.keys, by simp, ?_⟩
      intro name listed other isKey same
      rw [map_cons, map_nil, mem_singleton] at isKey
      rw [same, isKey] at listed
      exact lookup_eq_none_iff.mp found listed
  · rcases mem_insertField listed with before | isNew
    · exact distinct.each field before
    · rw [isNew]
      exact new

end Codex.Protocol.JsonValue
