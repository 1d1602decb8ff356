import Mathlib.Data.List.AList

/-!
# Counting the values of a finite map

How many values of a finite map satisfy a predicate, and how the count moves
when a key is inserted or erased.
-/

namespace Codex.Library.KeyedCounts

open List

variable {κ β : Type*} (counted : β → Bool)

def countValues (map : AList fun _ : κ => β) : Nat :=
  map.entries.countP fun entry => counted entry.2

@[simp]
theorem countValues_empty : countValues counted (∅ : AList fun _ : κ => β) = 0 := rfl

variable [DecidableEq κ] (map : AList fun _ : κ => β)

theorem countValues_eq_erase_add (key : κ) : countValues counted map =
      countValues counted (map.erase key) + (map.lookup key).toList.countP counted := by
  by_cases mem : key ∈ map.entries.keys
  · obtain ⟨value, front, back, fresh, split, erased⟩ := exists_of_kerase mem
    have found : map.lookup key = some value := by
      change map.entries.dlookup key = some value
      rw [split, dlookup_append, dlookup_eq_none.mpr fresh, dlookup_cons_eq]
      rfl
    have left : (map.erase key).entries = front ++ back := erased
    rw [found, countValues, countValues, left, split]
    simp only [countP_append, countP_cons, Option.toList_some, countP_nil]
    omega
  · have absent : map.lookup key = none := dlookup_eq_none.mpr mem
    have same : map.erase key = map := AList.ext (kerase_of_notMem_keys mem)
    rw [absent, same]
    rfl

theorem countValues_insert (key : κ) (value : β) :
    countValues counted (map.insert key value) + (map.lookup key).toList.countP counted =
      countValues counted map + [value].countP counted := by
  have inserted : countValues counted (map.insert key value) =
      countValues counted (map.erase key) + [value].countP counted := by
    have left : (map.erase key).entries = List.kerase key map.entries := rfl
    simp only [countValues, AList.entries_insert, left, countP_cons, countP_nil]
    omega
  rw [inserted, countValues_eq_erase_add counted map key]
  omega

theorem countValues_eq_zero_iff : countValues counted map = 0 ↔
      ∀ key value, map.lookup key = some value → counted value = false := by
  rw [countValues, countP_eq_zero]
  constructor
  · intro none key value found
    have mem := AList.mem_lookup_iff.mp found
    simpa using none ⟨key, value⟩ mem
  · rintro none ⟨key, value⟩ mem
    have found := AList.mem_lookup_iff.mpr mem
    simp [none key value found]

end Codex.Library.KeyedCounts
