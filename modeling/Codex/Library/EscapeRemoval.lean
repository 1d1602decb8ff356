import Mathlib.Algebra.Order.BigOperators.Group.List
import Mathlib.Algebra.Order.Group.Nat

/-!
# Removing escapes

A text in which one character escapes the next: reading the text drops the
escape and keeps what it escapes, if that is special.  A reader who forgets to
do this sees the same text exactly when nothing was escaped, since every
escape makes the text shorter.
-/

namespace Codex.Library.EscapeRemoval

open List

variable {α : Type*} [DecidableEq α] (escape : α) (special : α → Bool)

/-- Drop every escape in front of a special character. -/
def removeEscapes : List α → List α
  | [] => []
  | [last] => [last]
  | first :: second :: rest =>
    if first = escape ∧ special second = true then second :: removeEscapes rest
    else first :: removeEscapes (second :: rest)

/-- Some special character has an escape in front of it. -/
def hasEscape : List α → Bool
  | [] => false
  | [_] => false
  | first :: second :: rest =>
    (decide (first = escape) && special second) || hasEscape (second :: rest)

theorem length_removeEscapes_le (text : List α) :
    (removeEscapes escape special text).length ≤ text.length := by
  fun_induction removeEscapes escape special text with
  | case1 | case2 => exact le_rfl
  | case3 first second rest escaped ih =>
    simp only [length_cons]
    omega
  | case4 first second rest plain ih => simpa using ih

variable {text : List α}

theorem removeEscapes_eq_self (plain : hasEscape escape special text = false) :
    removeEscapes escape special text = text := by
  fun_induction removeEscapes escape special text with
  | case1 => rfl
  | case2 => rfl
  | case3 first second rest escaped ih => simp [hasEscape, escaped] at plain
  | case4 first second rest isPlain ih =>
    rw [hasEscape, Bool.or_eq_false_iff] at plain
    rw [ih plain.2]

theorem length_removeEscapes_lt (escaped : hasEscape escape special text = true) :
    (removeEscapes escape special text).length < text.length := by
  fun_induction removeEscapes escape special text with
  | case1 | case2 => exact nomatch escaped
  | case3 first second rest isEscaped ih =>
    have shorter := length_removeEscapes_le escape special rest
    simp only [length_cons]
    omega
  | case4 first second rest plain ih =>
    have later : hasEscape escape special (second :: rest) = true := by
      rw [hasEscape, Bool.or_eq_true] at escaped
      rcases escaped with here | later
      · exact absurd (by simpa using here) plain
      · exact later
    simpa using ih later

theorem removeEscapes_eq_self_iff : removeEscapes escape special text = text ↔
      hasEscape escape special text = false := by
  refine ⟨fun same => ?_, removeEscapes_eq_self escape special⟩
  rw [← Bool.not_eq_true]
  intro escaped
  have shorter := length_removeEscapes_lt escape special escaped
  rw [same] at shorter
  exact lt_irrefl _ shorter

omit [DecidableEq α] in
/--
Pieces that can only get shorter join to the same text exactly if each of them
stays the same.
-/
theorem flatMap_eq_flatMap_iff {β : Type*} {pieces : List β} {shown read : β → List α}
    (shorter : ∀ piece ∈ pieces, (read piece).length ≤ (shown piece).length) :
    pieces.flatMap shown = pieces.flatMap read ↔ ∀ piece ∈ pieces, shown piece = read piece := by
  refine ⟨fun same => ?_, fun same => flatMap_congr same⟩
  induction pieces with
  | nil => simp
  | cons piece pieces ih =>
    rw [forall_mem_cons] at shorter ⊢
    rw [flatMap_cons, flatMap_cons] at same
    have restShorter : (pieces.flatMap read).length ≤ (pieces.flatMap shown).length := by
      simp only [length_flatMap]
      exact sum_le_sum fun piece mem => shorter.2 piece mem
    have lengths := congrArg List.length same
    simp only [length_append] at lengths
    have sameLength : (shown piece).length = (read piece).length := by
      have := shorter.1
      omega
    obtain ⟨samePiece, sameRest⟩ := append_inj same sameLength
    exact ⟨samePiece, ih shorter.2 sameRest⟩

/--
A list that was read item by item is the list of other readings exactly if
every item was read as the other reading has it.
-/
theorem eq_map_iff_of_mapM {β γ : Type*} {read : β → Option γ}
    {expected : β → γ} {items : List β} {results : List γ}
    (collected : items.mapM read = some results) :
    results = items.map expected ↔ ∀ item ∈ items, read item = some (expected item) := by
  induction items generalizing results with
  | nil =>
    simp only [mapM_nil, Option.pure_def, Option.some.injEq] at collected
    simp [← collected]
  | cons item items ih =>
    simp only [mapM_cons, Option.bind_eq_bind, Option.bind_eq_some_iff,
      Option.pure_def, Option.some.injEq] at collected
    obtain ⟨first, readFirst, rest, readRest, rfl⟩ := collected
    rw [map_cons, List.cons.injEq, forall_mem_cons, ih readRest, readFirst, Option.some.injEq]

theorem exists_of_mapM {β γ : Type*} {read : β → Option γ} {items : List β}
    {results : List γ} (collected : items.mapM read = some results) :
    ∀ item ∈ items, ∃ result, read item = some result := by
  induction items generalizing results with
  | nil => exact forall_mem_nil _
  | cons item items ih =>
    simp only [mapM_cons, Option.bind_eq_bind, Option.bind_eq_some_iff,
      Option.pure_def, Option.some.injEq] at collected
    obtain ⟨first, readFirst, rest, readRest, _⟩ := collected
    exact forall_mem_cons.mpr ⟨⟨first, readFirst⟩, ih readRest⟩

end Codex.Library.EscapeRemoval
