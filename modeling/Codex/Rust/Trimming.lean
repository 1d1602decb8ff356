import Codex.Rust.Lines
import Mathlib.Data.List.DropRight

/-!
# Trimmed texts

How trimming acts on a text that is put together, and what it keeps.
-/

namespace Codex.Rust.Trimming

open Text Lines List

variable (front text back : String)

theorem toList_trimEnd : (trimEnd text).toList = text.toList.rdropWhile isWhiteSpace :=
  String.toList_ofList

theorem toList_trimStart : (trimStart text).toList = text.toList.dropWhile isWhiteSpace :=
  String.toList_ofList

/-- Only what follows the last visible character is trimmed. -/
theorem rdropWhile_append {Item : Type*} (test : Item → Bool) (front back : List Item) :
    (front ++ back).rdropWhile test = if (back.rdropWhile test).isEmpty then front.rdropWhile test
      else front ++ back.rdropWhile test := by
  simp only [List.rdropWhile, reverse_append, dropWhile_append, isEmpty_reverse]
  split
  · rfl
  · simp

theorem trimEnd_append : trimEnd (front ++ back) =
    if isBlank back then trimEnd front else front ++ trimEnd back := by
  have nothing : isBlank back = true ↔ back.toList.rdropWhile isWhiteSpace = [] :=
    (isBlank_iff back).trans rdropWhile_eq_nil_iff.symm
  refine String.toList_inj.mp ?_
  rw [toList_trimEnd, String.toList_append, rdropWhile_append]
  simp only [nothing, List.isEmpty_iff, apply_ite String.toList, String.toList_append,
    toList_trimEnd]

theorem trimStart_append : trimStart (front ++ back) =
    if isBlank front then trimStart back else trimStart front ++ back := by
  have nothing : isBlank front = true ↔ front.toList.dropWhile isWhiteSpace = [] :=
    (isBlank_iff front).trans dropWhile_eq_nil_iff.symm
  refine String.toList_inj.mp ?_
  rw [toList_trimStart, String.toList_append, dropWhile_append]
  simp only [nothing, List.isEmpty_iff, apply_ite String.toList, String.toList_append,
    toList_trimStart]

theorem trim_trimStart : trim (trimStart text) = trim text := by
  have twice : trimStart (trimStart text) = trimStart text := by
    refine String.toList_inj.mp ?_
    rw [toList_trimStart, toList_trimStart, dropWhile_idempotent]
  rw [trim, twice]
  rfl

theorem trim_append_of_blank (blank : isBlank back = true) : trim (front ++ back) = trim front := by
  cases seen : isBlank front with
  | false => simp [trim, trimStart_append, trimEnd_append, seen, blank]
  | true =>
    have nothing : ∀ text, isBlank text = true → trimStart text = trimStart "" :=
      fun text blank => by simpa [blank] using trimStart_append text ""
    rw [trim, trimStart_append, if_pos seen, nothing back blank, ← nothing front seen]
    rfl

theorem trim_trimEnd : trim (trimEnd text) = trim text := by
  have blank : isBlank (String.ofList (text.toList.rtakeWhile isWhiteSpace)) = true := by
    rw [isBlank_iff, String.toList_ofList]
    exact fun char mem => mem_rtakeWhile_imp mem
  rw [← trim_append_of_blank _ _ blank]
  refine congrArg trim (String.toList_inj.mp ?_)
  rw [String.toList_append, toList_trimEnd, String.toList_ofList, rdropWhile_append_rtakeWhile]

theorem trimEnd_of_blank (blank : isBlank text = true) : trimEnd text = "" := by
  refine String.toList_inj.mp ?_
  rw [toList_trimEnd]
  exact rdropWhile_eq_nil_iff.mpr ((isBlank_iff text).mp blank)

theorem toList_trimEnd_append (front back : List Char)
    (last : Char) (shape : text.toList = front ++ back) (isLast : front.getLast? = some last)
    (visible : isWhiteSpace last = false) :
    (trimEnd text).toList = front ++ back.rdropWhile isWhiteSpace := by
  rw [toList_trimEnd, shape, rdropWhile_append]
  split
  next nothing =>
    rw [List.isEmpty_iff.mp nothing, append_nil, rdropWhile_eq_self_iff]
    intro nonempty
    rw [getLast?_eq_some_getLast nonempty, Option.some.injEq] at isLast
    rw [isLast, visible]
    exact Bool.false_ne_true
  next => rfl

theorem trim_eq_trimEnd (first : Char) (rest : List Char) (shape : text.toList = first :: rest)
    (visible : isWhiteSpace first = false) : trim text = trimEnd text := by
  have unchanged : trimStart text = text := by
    refine String.toList_inj.mp ?_
    rw [toList_trimStart, shape, dropWhile_cons_of_neg]
    simp [visible]
  rw [trim, unchanged]

theorem head?_trimEnd (first : Char) (trimmed : (trimEnd text).toList.head? = some first) :
    text.toList.head? = some first := by
  obtain ⟨rest, whole⟩ : (trimEnd text).toList <+: text.toList := by
    rw [toList_trimEnd]
    exact rdropWhile_prefix _ _
  cases front : (trimEnd text).toList with
  | nil => rw [front] at trimmed; cases trimmed
  | cons char tail =>
    rw [front] at trimmed whole
    rw [← whole]
    exact trimmed

/-! ## Carriage returns -/

/-- The carriage return at the end of a line is trimmed in any case. -/
theorem trim_stripCarriageReturn (line : String) :
    trim (String.ofList (stripCarriageReturn line.toList)) = trim line ∧
      trimEnd (String.ofList (stripCarriageReturn line.toList)) = trimEnd line := by
  unfold stripCarriageReturn
  split
  next ends =>
    have whole : line = String.ofList line.toList.dropLast ++ "\r" := by
      refine String.toList_inj.mp ?_
      rw [String.toList_append, String.toList_ofList]
      exact (dropLast_append_getLast? _ ends).symm
    generalize String.ofList line.toList.dropLast = kept at whole
    subst whole
    exact ⟨(trim_append_of_blank kept "\r" (by decide)).symm,
      ((trimEnd_append kept "\r").trans (if_pos (by decide))).symm⟩
  next => rw [String.ofList_toList]; exact ⟨rfl, rfl⟩

end Codex.Rust.Trimming
