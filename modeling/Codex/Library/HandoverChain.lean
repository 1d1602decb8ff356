import Mathlib.Data.List.Basic

/-!
# Chains in which each entry answers the one before it

Every entry of a list takes something in and gives something out.  The list is
linked when each entry takes in exactly what the entry before it gives out,
the first takes in nothing and the last gives out nothing.  Entries that do
neither can be removed, added at the end, or replaced.
-/

namespace Codex.Library.HandoverChain

open List

variable {α σ : Type*} (takes gives : α → σ) (nothing : σ)

/-- The list is linked, where `carried` was given out before it. -/
def LinkedFrom (carried : σ) : List α → Prop
  | [] => carried = nothing
  | entry :: rest => takes entry = carried ∧ LinkedFrom (gives entry) rest

/-- The list is linked from its start to its end. -/
def Linked (entries : List α) : Prop := LinkedFrom takes gives nothing nothing entries

variable {takes gives nothing} {entries : List α} {carried : σ}

/-- Entries that take in and give out nothing can be removed. -/
theorem LinkedFrom.filter (keep : α → Bool) (removedPlain : ∀ entry ∈ entries, keep entry = false →
      takes entry = nothing ∧ gives entry = nothing)
    (linked : LinkedFrom takes gives nothing carried entries) :
    LinkedFrom takes gives nothing carried (entries.filter keep) := by
  induction entries generalizing carried with
  | nil => exact linked
  | cons entry rest ih =>
    rw [forall_mem_cons] at removedPlain
    obtain ⟨answers, linked⟩ := linked
    have onward := ih removedPlain.2 linked
    cases kept : keep entry with
    | true =>
      rw [filter_cons_of_pos kept]
      exact ⟨answers, onward⟩
    | false =>
      obtain ⟨takesNothing, givesNothing⟩ := removedPlain.1 kept
      have same : carried = gives entry := by rw [← answers, takesNothing, givesNothing]
      rw [filter_cons_of_neg (by simp [kept]), same]
      exact onward

/-- An entry that takes in and gives out nothing can be added at the end. -/
theorem LinkedFrom.append_plain {entry : α} (takesNothing : takes entry = nothing)
    (givesNothing : gives entry = nothing)
    (linked : LinkedFrom takes gives nothing carried entries) :
    LinkedFrom takes gives nothing carried (entries ++ [entry]) := by
  induction entries generalizing carried with
  | nil =>
    refine ⟨?_, givesNothing⟩
    rw [takesNothing]
    exact linked.symm
  | cons first rest ih => exact ⟨linked.1, ih linked.2⟩

/-- Only what is taken in and given out matters. -/
theorem LinkedFrom.of_forall₂ {before after : List α} (same : Forall₂
      (fun old new => takes new = takes old ∧ gives new = gives old)
      before after)
    (linked : LinkedFrom takes gives nothing carried before) :
    LinkedFrom takes gives nothing carried after := by
  induction same generalizing carried with
  | nil => exact linked
  | cons equal _ ih =>
    refine ⟨equal.1.trans linked.1, ih ?_⟩
    rw [equal.2]
    exact linked.2

theorem LinkedFrom.getElem? (linked : LinkedFrom takes gives nothing carried entries) :
    entries[0]?.elim nothing takes = carried ∧ ∀ index : Nat, entries[index]?.elim nothing gives =
          entries[index + 1]?.elim nothing takes := by
  induction entries generalizing carried with
  | nil => exact ⟨Eq.symm linked, fun index => rfl⟩
  | cons entry rest ih =>
    obtain ⟨first, others⟩ := ih linked.2
    refine ⟨linked.1, fun index => ?_⟩
    cases index with
    | zero => simpa using first.symm
    | succ index => simpa using others index

end Codex.Library.HandoverChain
