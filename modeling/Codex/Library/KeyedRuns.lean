import Mathlib.Data.List.Chain

/-!
# Merging neighbours of one key

A loop that appends elements to a list and joins an element to the last entry
when their keys agree builds the maximal runs of one key.  Neighbouring runs
have different keys.  When the key has two values, removing some runs keeps
that property exactly when every removed stretch between two kept runs has an
even length.
-/

namespace Codex.Library.KeyedRuns

open List

/-! ## Runs -/

section Merging

variable {α κ : Type*} [DecidableEq κ] (key : α → κ) (join : α → α → α)

/-- Put an element before a list of runs, joining it to the first of them. -/
def attach (element : α) : List α → List α
  | [] => [element]
  | first :: rest =>
    if key element = key first then join element first :: rest
    else element :: first :: rest

def runs (elements : List α) : List α := elements.foldr (attach key join) []

/-- One round of the loop: join to the last entry, or append. -/
def appendLast (merged : List α) (element : α) : List α :=
  match merged.getLast? with
  | some last =>
    if key last = key element then merged.dropLast ++ [join last element]
    else merged ++ [element]
  | none => merged ++ [element]

@[simp]
theorem runs_nil : runs key join [] = [] := rfl

@[simp]
theorem runs_cons (element : α) (rest : List α) : runs key join (element :: rest) =
      attach key join element (runs key join rest) := rfl

variable {key join} (keyJoin : ∀ left right, key (join left right) = key left)
include keyJoin

theorem key_head_attach (element : α) (merged : List α) :
    ∃ first rest, attach key join element merged = first :: rest ∧ key first = key element := by
  cases merged with
  | nil => exact ⟨element, [], rfl, rfl⟩
  | cons first rest =>
    by_cases same : key element = key first
    · refine ⟨join element first, rest, ?_, keyJoin _ _⟩
      simp only [attach, same, if_true]
    · refine ⟨element, first :: rest, ?_, rfl⟩
      simp only [attach, same, if_false]

variable (joinAssoc : ∀ first second third,
    join (join first second) third = join first (join second third))
include joinAssoc

/-- Joining twice is joining the joined element once. -/
theorem attach_attach_of_eq (outer inner : α) (same : key outer = key inner) (merged : List α) :
    attach key join outer (attach key join inner merged) =
      attach key join (join outer inner) merged := by
  cases merged with
  | nil => simp [attach, same]
  | cons first rest =>
    by_cases joined : key inner = key first
    · simp [attach, same, joined, keyJoin, joinAssoc]
    · simp [attach, same, joined, keyJoin]

omit joinAssoc in
theorem attach_attach_of_ne (outer inner : α) (different : key outer ≠ key inner)
    (merged : List α) :
    attach key join outer (attach key join inner merged) =
      outer :: attach key join inner merged := by
  obtain ⟨first, rest, shape, headKey⟩ := key_head_attach keyJoin inner merged
  rw [shape]
  simp [attach, headKey, different]

theorem foldl_appendLast_snoc (elements front : List α) (last : α) :
    elements.foldl (appendLast key join) (front ++ [last]) =
      front ++ attach key join last (runs key join elements) := by
  induction elements generalizing front last with
  | nil => simp [attach]
  | cons element rest ih =>
    by_cases same : key last = key element
    · have joined : appendLast key join (front ++ [last]) element =
            front ++ [join last element] := by
        simp [appendLast, same]
      rw [foldl_cons, joined, ih, runs_cons, attach_attach_of_eq keyJoin joinAssoc _ _ same]
    · have appended : appendLast key join (front ++ [last]) element =
            (front ++ [last]) ++ [element] := by
        simp [appendLast, same]
      rw [foldl_cons, appended, ih, runs_cons, attach_attach_of_ne keyJoin _ _ same]
      simp

theorem foldl_appendLast_eq_runs (elements : List α) :
    elements.foldl (appendLast key join) [] = runs key join elements := by
  cases elements with
  | nil => rfl
  | cons element rest =>
    simpa [appendLast] using foldl_appendLast_snoc keyJoin joinAssoc rest [] element

omit joinAssoc

theorem isChain_runs (elements : List α) :
    (runs key join elements).IsChain fun left right => key left ≠ key right := by
  induction elements with
  | nil => exact isChain_nil
  | cons element rest ih =>
    rw [runs_cons]
    cases shape : runs key join rest with
    | nil => exact isChain_singleton _
    | cons first others =>
      rw [shape] at ih
      by_cases same : key element = key first
      · rw [attach, if_pos same]
        rw [isChain_cons] at ih ⊢
        simpa only [keyJoin, same] using ih
      · rw [attach, if_neg same]
        exact isChain_cons_cons.mpr ⟨same, ih⟩

omit keyJoin

/-- What holds of every element and survives joining holds of every run. -/
theorem forall_mem_runs {holds : α → Prop} {elements : List α}
    (each : ∀ element ∈ elements, holds element)
    (joined : ∀ left right, key left = key right →
      holds left → holds right → holds (join left right)) :
    ∀ run ∈ runs key join elements, holds run := by
  induction elements with
  | nil => simp
  | cons element rest ih =>
    have first := each element (by simp)
    have others := ih (forall_mem_cons.mp each).2
    rw [runs_cons]
    cases shape : runs key join rest with
    | nil => simpa [attach] using first
    | cons run more =>
      rw [shape, forall_mem_cons] at others
      by_cases same : key element = key run
      · rw [attach, if_pos same, forall_mem_cons]
        exact ⟨joined _ _ same first others.1, others.2⟩
      · rw [attach, if_neg same, forall_mem_cons, forall_mem_cons]
        exact ⟨first, others⟩

theorem flatMap_runs {β : Type*} {held : α → List β} (heldJoin : ∀ left right,
      held (join left right) = held left ++ held right)
    (elements : List α) : (runs key join elements).flatMap held = elements.flatMap held := by
  induction elements with
  | nil => rfl
  | cons element rest ih =>
    rw [runs_cons, flatMap_cons, ← ih]
    cases runs key join rest with
    | nil => rfl
    | cons first more =>
      by_cases same : key element = key first
      · rw [attach, if_pos same, flatMap_cons, flatMap_cons, heldJoin, append_assoc]
      · rw [attach, if_neg same, flatMap_cons]

end Merging

/-! ## Removing runs -/

/--
Whether every removed stretch that ends at a kept entry is even, where `gap`
entries have been removed since the last kept one.
-/
def evenGapsAfter : (gap : Nat) → List Bool → Bool
  | _, [] => true
  | gap, true :: rest => gap % 2 == 0 && evenGapsAfter 0 rest
  | gap, false :: rest => evenGapsAfter (gap + 1) rest

/-- Whether every removed stretch between two kept entries is even. -/
def evenGaps : List Bool → Bool
  | [] => true
  | true :: rest => evenGapsAfter 0 rest
  | false :: rest => evenGaps rest

section Removing

variable {κ : Type*}

def kept (entries : List (κ × Bool)) : List κ := (entries.filter (·.2)).map (·.1)

@[simp]
theorem kept_cons_true (entry : κ) (rest : List (κ × Bool)) :
    kept ((entry, true) :: rest) = entry :: kept rest := by
  simp [kept]

@[simp]
theorem kept_cons_false (entry : κ) (rest : List (κ × Bool)) :
    kept ((entry, false) :: rest) = kept rest := by
  simp [kept]

/--
The walk from a kept key: `previous` is the key just before the entries, and
it agrees with the last kept key when an even number was removed in between.
-/
theorem isChain_kept_after (twoValued : ∀ first second third : κ,
      first ≠ second → second ≠ third → first = third)
    {entries : List (κ × Bool)} (last prev : κ) (gap : Nat)
    (parity : gap % 2 = 0 ↔ prev = last)
    (alternating : (prev :: entries.map (·.1)).IsChain (· ≠ ·)) :
    (last :: kept entries).IsChain (· ≠ ·) ↔ evenGapsAfter gap (entries.map (·.2)) = true := by
  induction entries generalizing last prev gap with
  | nil => simp [kept, evenGapsAfter]
  | cons entry rest ih =>
    obtain ⟨current, mark⟩ := entry
    obtain ⟨different, remaining⟩ := isChain_cons_cons.mp alternating
    cases mark with
    | true =>
      have onward := ih current current 0 (by simp) remaining
      rw [kept_cons_true, isChain_cons_cons, onward]
      have link : last ≠ current ↔ gap % 2 = 0 := by
        rw [parity]
        constructor
        · intro apart
          exact twoValued prev current last different (Ne.symm apart)
        · rintro rfl
          exact different
      simp [evenGapsAfter, link]
    | false =>
      rw [kept_cons_false]
      refine ih last current (gap + 1) ?_ remaining
      constructor
      · intro odd
        have apart : prev ≠ last := by
          rw [ne_eq, ← parity]
          omega
        exact twoValued current prev last (Ne.symm different) apart
      · rintro rfl
        have apart : ¬ gap % 2 = 0 := by
          rw [parity]
          exact different
        omega

/-- Kept entries alternate exactly when every inner gap is even. -/
theorem isChain_kept_iff (twoValued : ∀ first second third : κ,
      first ≠ second → second ≠ third → first = third)
    (entries : List (κ × Bool)) (alternating : (entries.map (·.1)).IsChain (· ≠ ·)) :
    (kept entries).IsChain (· ≠ ·) ↔ evenGaps (entries.map (·.2)) = true := by
  induction entries with
  | nil => simp [kept, evenGaps]
  | cons entry rest ih =>
    obtain ⟨current, mark⟩ := entry
    cases mark with
    | true =>
      simpa [evenGaps] using isChain_kept_after twoValued current current 0 (by simp) alternating
    | false => simpa [evenGaps] using ih alternating.tail

end Removing

end Codex.Library.KeyedRuns
