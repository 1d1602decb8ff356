import Mathlib.Data.List.Basic

/-!
# First occurrences

Lists that are built by appending what is not there yet, as a loop over a
vector with a membership test or a set of seen values does.  Which elements
such a list has does not depend on the tests.
-/

namespace Codex.Library.FirstOccurrences

open List

variable {α : Type*} [DecidableEq α]

/-- Append an element that is not there yet. -/
def pushMissing (items : List α) (item : α) : List α :=
  if items.contains item then items else items ++ [item]

variable {items : List α} {found : α}

theorem mem_pushMissing_iff {item : α} :
    found ∈ pushMissing items item ↔ found ∈ items ∨ found = item := by
  unfold pushMissing
  split
  next present =>
    rw [contains_iff_mem] at present
    constructor
    · exact .inl
    · rintro (mem | rfl)
      · exact mem
      · exact present
  next => simp

theorem mem_foldl_pushMissing_iff {added : List α} :
    found ∈ added.foldl pushMissing items ↔ found ∈ items ∨ found ∈ added := by
  induction added generalizing items with
  | nil => simp
  | cons item added ih => rw [foldl_cons, ih, mem_pushMissing_iff, mem_cons, or_assoc]

def firstOccurrences (items : List α) : List α := items.foldl pushMissing []

@[simp] theorem mem_firstOccurrences_iff : found ∈ firstOccurrences items ↔ found ∈ items := by
  simp [firstOccurrences, mem_foldl_pushMissing_iff]

def dropRepeats : List α → List α
  | [] => []
  | item :: items =>
    match items with
    | [] => [item]
    | next :: _ => if item = next then dropRepeats items else item :: dropRepeats items

@[simp] theorem mem_dropRepeats_iff : found ∈ dropRepeats items ↔ found ∈ items := by
  induction items with
  | nil => rfl
  | cons item items ih =>
    cases items with
    | nil => rfl
    | cons next rest =>
      rw [dropRepeats]
      split
      next same =>
        subst same
        rw [ih]
        simp
      next => rw [mem_cons, ih, ← mem_cons]

end Codex.Library.FirstOccurrences
