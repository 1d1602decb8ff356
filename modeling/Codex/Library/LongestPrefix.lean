import Mathlib.Data.List.Infix
import Mathlib.Order.Lattice

/-!
# Longest-prefix decisions

A table of named positions in a tree of paths decides a path by the longest
named prefix of it.  The prefixes of one path form a chain, so that prefix is
unique; the decision at a path and the decision at any point between the path
and its deciding prefix agree.
-/

namespace Codex.Library.LongestPrefix

open List

variable {α : Type*}

/-! ## The deciding prefix -/

theorem prefix_antisymm {left right : List α}
    (below : left <+: right) (above : right <+: left) : left = right :=
  below.eq_of_length (le_antisymm below.length_le above.length_le)

/-- The longest prefix of a path that is named. -/
structure Governs
    (named : List α → Prop) (pos path : List α) : Prop where
  isPrefix : pos <+: path
  isNamed : named pos
  longest : ∀ {other}, other <+: path → named other → other <+: pos

section Governs

variable {named : List α → Prop} {pos path : List α}

theorem Governs.unique {other : List α} (left : Governs named pos path)
    (right : Governs named other path) : pos = other :=
  prefix_antisymm (right.longest left.isPrefix left.isNamed)
    (left.longest right.isPrefix right.isNamed)

theorem governs_self (isNamed : named path) : Governs named path path :=
  ⟨prefix_rfl, isNamed, fun isPrefix _ => isPrefix⟩

/-- The deciding prefix also decides every path on the way to the path. -/
theorem Governs.between {middle : List α} (governs : Governs named pos path)
    (above : pos <+: middle) (below : middle <+: path) : Governs named pos middle :=
  ⟨above, governs.isNamed, fun isPrefix isNamed => governs.longest (isPrefix.trans below) isNamed⟩

/-- Every path has a deciding prefix unless no prefix of it is named. -/
theorem exists_governs_or (named : List α → Prop) (path : List α) :
    (∃ pos, Governs named pos path) ∨ ∀ other, other <+: path → ¬ named other := by
  induction path using reverseRecOn with
  | nil =>
    by_cases atRoot : named []
    · exact .inl ⟨[], governs_self atRoot⟩
    · refine .inr fun other isPrefix => ?_
      rwa [prefix_nil.mp isPrefix]
  | append_singleton path last ih =>
    by_cases atEnd : named (path ++ [last])
    · exact .inl ⟨_, governs_self atEnd⟩
    · rcases ih with ⟨pos, governs⟩ | unnamed
      · refine .inl ⟨pos, governs.isPrefix.trans (prefix_append _ _),
          governs.isNamed, fun isPrefix isNamed => ?_⟩
        rcases prefix_concat_iff.mp isPrefix with rfl | shorter
        · exact absurd isNamed atEnd
        · exact governs.longest shorter isNamed
      · refine .inr fun other isPrefix isNamed => ?_
        rcases prefix_concat_iff.mp isPrefix with rfl | shorter
        · exact atEnd isNamed
        · exact unnamed other shorter isNamed

theorem exists_governs {other : List α} (isPrefix : other <+: path) (isNamed : named other) :
    ∃ pos, Governs named pos path := by
  rcases exists_governs_or named path with governed | unnamed
  · exact governed
  · exact absurd isNamed (unnamed other isPrefix)

/-- Two tables that name the same positions decide by the same prefixes. -/
theorem governs_congr {named' : List α → Prop} (same : ∀ other, named other ↔ named' other) :
    Governs named pos path ↔ Governs named' pos path := by
  rw [show named = named' from funext fun other => propext (same other)]

end Governs

/-! ## Chains of prefixes -/

theorem child_prefix {front back path : List α} {step : α}
    (isChild : front ++ [step] <+: path) (isBack : back <+: path)
    (above : front <+: back) (distinct : front ≠ back) : front ++ [step] <+: back := by
  refine prefix_of_prefix_length_le isChild isBack ?_
  have shorter : front.length < back.length := lt_of_le_of_ne above.length_le fun same =>
      distinct (above.eq_of_length same)
  simpa using Nat.succ_le_of_lt shorter

/-! ## The last largest element -/

section Maximum

variable {κ : Type*} [LinearOrder κ] (key : α → κ)

/-- One step of the search for the last largest element. -/
def laterMaximum (best item : α) : α := if key best ≤ key item then item else best

/-- The last element with the largest key. -/
def maxByKey : List α → Option α
  | [] => none
  | item :: items => some (items.foldl (laterMaximum key) item)

theorem foldl_laterMaximum (best : α) (items : List α) :
    items.foldl (laterMaximum key) best ∈ best :: items ∧ ∀ item ∈ best :: items,
        key item ≤ key (items.foldl (laterMaximum key) best) := by
  induction items generalizing best with
  | nil => simp
  | cons item items ih =>
    obtain ⟨mem, largest⟩ := ih (laterMaximum key best item)
    rw [foldl_cons]
    generalize items.foldl (laterMaximum key) (laterMaximum key best item) =
      result at mem largest
    have bestLe : key best ≤ key (laterMaximum key best item) := by
      unfold laterMaximum
      split
      · assumption
      · exact le_rfl
    have itemLe : key item ≤ key (laterMaximum key best item) := by
      unfold laterMaximum
      split
      · exact le_rfl
      · exact le_of_not_ge ‹_›
    have reached := largest _ mem_cons_self
    refine ⟨?_, ?_⟩
    · rcases mem_cons.mp mem with same | later
      · rw [same]
        unfold laterMaximum
        split <;> simp
      · exact .tail _ (.tail _ later)
    · intro other otherMember
      rcases mem_cons.mp otherMember with rfl | rest
      · exact bestLe.trans reached
      · rcases mem_cons.mp rest with rfl | later
        · exact itemLe.trans reached
        · exact largest _ (.tail _ later)

theorem maxByKey_spec {items : List α} {best : α} (found : maxByKey key items = some best) :
    best ∈ items ∧ ∀ item ∈ items, key item ≤ key best := by
  cases items with
  | nil => exact nomatch found
  | cons item items =>
    obtain rfl := Option.some.inj found
    exact foldl_laterMaximum key item items

theorem maxByKey_eq_none_iff {items : List α} : maxByKey key items = none ↔ items = [] := by
  cases items <;> simp [maxByKey]

end Maximum

end Codex.Library.LongestPrefix
