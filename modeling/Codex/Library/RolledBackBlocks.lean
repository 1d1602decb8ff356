import Mathlib.Data.List.Induction
import Mathlib.Data.List.Nodup

/-!
# Blocks that are rolled back

A log of blocks and rollbacks, where each block stands for a list of elements
and a rollback takes back a number of the newest elements.  What is left can be
read off the log from its newest entry on, with the number of elements that are
still to be taken back (`replay_eq_survivors`).
-/

namespace Codex.Library.RolledBackBlocks

open List

variable {α β γ : Type}

inductive Entry (β : Type) where
  | block (content : β)
  | rollback (count : Nat)

/-! ## What is left -/

variable (expand : β → List α)

/-- What an entry makes of the elements that are left so far. -/
def step (kept : List α) : Entry β → List α
  | .block content => kept ++ expand content
  | .rollback count => kept.take (kept.length - count)

variable (entries : List (Entry β))

def replay : List α := entries.foldl (step expand) []

/--
What is left of entries, newest first, while a number of elements is still to
be taken back.
-/
def survivors (expand : β → List α) : List (Entry β) → Nat → List α
  | [], _ => []
  | .block content :: older, pending =>
    survivors expand older (pending - (expand content).length) ++
      (expand content).take ((expand content).length - pending)
  | .rollback count :: older, pending => survivors expand older (pending + count)

/-- Taking back from the end of two lists starts with the second. -/
theorem take_append_pending (left right : List α) (pending : Nat) :
    (left ++ right).take ((left ++ right).length - pending) =
      left.take (left.length - (pending - right.length)) ++
        right.take (right.length - pending) := by
  rw [take_append, length_append]
  rcases Nat.le_total pending right.length with few | many
  · have whole : left.length ≤ left.length + right.length - pending := by omega
    rw [Nat.sub_eq_zero_of_le few, Nat.sub_zero, take_of_length_le whole, take_length]
    congr 2
    omega
  · have none : left.length + right.length - pending - left.length = 0 := by omega
    rw [none, Nat.sub_eq_zero_of_le many, take_zero]
    congr 2
    omega

theorem take_replay (pending : Nat) :
    (replay expand entries).take ((replay expand entries).length - pending) =
      survivors expand entries.reverse pending := by
  induction entries using reverseRecOn generalizing pending with
  | nil => simp [replay, survivors]
  | append_singleton entries entry ih =>
    rw [replay, foldl_append, foldl_cons, foldl_nil, reverse_append]
    cases entry with
    | block content =>
      simp only [step, reverse_singleton, singleton_append, survivors]
      rw [take_append_pending]
      exact congrArg (· ++ _) (ih _)
    | rollback count =>
      simp only [step, reverse_singleton, singleton_append, survivors]
      rw [← ih, take_take, length_take]
      congr 1
      change min (min ((replay expand entries).length - count)
        (replay expand entries).length - pending) ((replay expand entries).length - count) = _
      omega

/-- What a log leaves, read from its newest entry on. -/
theorem replay_eq_survivors : replay expand entries = survivors expand entries.reverse 0 := by
  have whole := take_replay expand entries 0
  rwa [Nat.sub_zero, take_length] at whole

variable {entries : List (Entry β)} {blocks elements : Nat}

/-! ## Two ways of counting -/

section Counting

variable (expand : β → List α) (read : α → Option γ) (content : β)

def reads : List γ := (expand content).filterMap read

def readsOf : List (Entry β) → List γ
  | [] => []
  | .block content :: rest => readsOf rest ++ reads expand read content
  | .rollback _ :: rest => readsOf rest

/-- The elements on which the two readers differ at a block. -/
def disputed (blocks elements : Nat) (content : β) : List α :=
  if blocks = 0 then (expand content).drop ((expand content).length - elements)
  else (expand content).take ((expand content).length - elements)

/--
Entries, newest first, at whose blocks both readers keep or take back the same,
while a number of blocks and a number of elements are to be taken back.
-/
def InStep : List (Entry β) → Nat → Nat → Prop
  | [], _, _ => True
  | .block content :: older, blocks, elements =>
    (∀ element ∈ disputed expand blocks elements content, read element = none) ∧
      InStep older (blocks - 1) (elements - (expand content).length)
  | .rollback count :: older, blocks, elements => InStep older (blocks + count) (elements + count)

def leftByBlocks (entries : List (Entry β)) (pending : Nat) : List γ :=
  (survivors (fun content => [content]) entries pending).flatMap (reads expand read)

def leftByElements (entries : List (Entry β)) (pending : Nat) : List γ :=
  (survivors expand entries pending).filterMap read

variable {expand read} (older : List (Entry β)) (pending : Nat)

theorem leftByBlocks_block : leftByBlocks expand read (.block content :: older) pending =
      leftByBlocks expand read older (pending - 1) ++
        if pending = 0 then reads expand read content else [] := by
  rw [leftByBlocks, survivors, flatMap_append, leftByBlocks]
  rcases Nat.eq_zero_or_pos pending with zero | positive
  · simp [zero]
  · have none : [content].length - pending = 0 := by
      simp only [length_singleton]
      omega
    rw [none, take_zero, if_neg (by omega)]
    rfl

theorem leftByElements_block :
    leftByElements expand read (.block content :: older) pending = leftByElements expand read older
          (pending - (expand content).length) ++
        ((expand content).take ((expand content).length - pending)).filterMap read := by
  rw [leftByElements, survivors, filterMap_append, leftByElements]

/-- At a block both readers keep the same when they read no disputed element. -/
theorem block_agrees_iff (blocks elements : Nat) (content : β) :
    (if blocks = 0 then reads expand read content else []) = ((expand content).take
          ((expand content).length - elements)).filterMap read ↔
      ∀ element ∈ disputed expand blocks elements content, read element = none := by
  unfold disputed
  split
  · have split : reads expand read content = ((expand content).take
            ((expand content).length - elements)).filterMap read ++
          ((expand content).drop ((expand content).length - elements)).filterMap read := by
      rw [← filterMap_append, take_append_drop, reads]
    rw [split, append_right_eq_self, filterMap_eq_nil_iff]
  · rw [eq_comm, filterMap_eq_nil_iff]

/-- Readers in step are left with the same. -/
theorem survivors_agree (inStep : InStep expand read entries blocks elements) :
    leftByBlocks expand read entries blocks = leftByElements expand read entries elements := by
  induction entries generalizing blocks elements with
  | nil => rfl
  | cons entry older ih =>
    cases entry with
    | block content =>
      rw [leftByBlocks_block, leftByElements_block, ih inStep.2,
        (block_agrees_iff blocks elements content).mpr inStep.1]
    | rollback count => exact ih inStep

theorem leftBy_subset (entries : List (Entry β)) (pending : Nat) :
    leftByBlocks expand read entries pending ⊆ readsOf expand read entries ∧
      leftByElements expand read entries pending ⊆ readsOf expand read entries := by
  induction entries generalizing pending with
  | nil => exact ⟨List.Subset.refl _, List.Subset.refl _⟩
  | cons entry older ih =>
    cases entry with
    | block content =>
      rw [leftByBlocks_block, leftByElements_block, readsOf, append_subset, append_subset]
      refine ⟨⟨?_, ?_⟩, ?_, ?_⟩
      · exact List.Subset.trans (ih _).1 (subset_append_left _ _)
      · split
        · exact subset_append_right _ _
        · exact nil_subset _
      · exact List.Subset.trans (ih _).2 (subset_append_left _ _)
      · have fewer := ((take_sublist ((expand content).length - pending)
          (expand content)).filterMap read).subset
        exact List.Subset.trans fewer (subset_append_right _ _)
    | rollback count => exact ih _

/-- Equal lists whose two parts come from disjoint lists have equal parts. -/
theorem append_inj_of_disjoint {front back left right left' right' : List γ}
    (disjoint : List.Disjoint front back) (leftIn : left ⊆ front)
    (leftIn' : left' ⊆ front) (rightIn : right ⊆ back)
    (rightIn' : right' ⊆ back) (same : left ++ right = left' ++ right') :
    left = left' ∧ right = right' := by
  classical
  have frontOnly : ∀ {part : List γ}, part ⊆ front →
      part.filter (fun element => decide (element ∈ back)) = [] :=
    fun inFront => filter_eq_nil_iff.mpr fun element listed => by
      simpa using fun inBack => disjoint (inFront listed) inBack
  have backOnly : ∀ {part : List γ}, part ⊆ back →
      part.filter (fun element => decide (element ∈ back)) = part :=
    fun inBack => filter_eq_self.mpr fun element listed => by simpa using inBack listed
  have rights := congrArg (List.filter fun element => decide (element ∈ back)) same
  rw [filter_append, filter_append, frontOnly leftIn,
    frontOnly leftIn', backOnly rightIn, backOnly rightIn', nil_append,
    nil_append] at rights
  rw [rights] at same
  exact ⟨append_cancel_right same, rights⟩

theorem inStep_of_agree (distinct : (readsOf expand read entries).Nodup)
    (agree : leftByBlocks expand read entries blocks =
      leftByElements expand read entries elements) :
    InStep expand read entries blocks elements := by
  induction entries generalizing blocks elements with
  | nil => trivial
  | cons entry older ih =>
    cases entry with
    | block content =>
      rw [readsOf, nodup_append'] at distinct
      rw [leftByBlocks_block, leftByElements_block] at agree
      have keptWhole : (if blocks = 0 then reads expand read content
          else []) ⊆ reads expand read content := by
        split
        · exact List.Subset.refl _
        · exact nil_subset _
      have keptPart : ((expand content).take ((expand content).length - elements)).filterMap read ⊆
            reads expand read content :=
        ((take_sublist _ _).filterMap read).subset
      obtain ⟨olderAgree, hereAgree⟩ := append_inj_of_disjoint
        distinct.2.2 (leftBy_subset older _).1
        (leftBy_subset older _).2 keptWhole keptPart agree
      exact ⟨(block_agrees_iff blocks elements content).mp hereAgree, ih distinct.1 olderAgree⟩
    | rollback count => exact ih distinct agree

theorem inStep_of_single {pending : Nat}
    (single : ∀ content, .block content ∈ entries → (expand content).length = 1) :
    InStep expand read entries pending pending := by
  induction entries generalizing pending with
  | nil => trivial
  | cons entry older ih =>
    have olderSingle : ∀ content, .block content ∈ older →
        (expand content).length = 1 := fun content listed =>
      single content (mem_cons_of_mem _ listed)
    cases entry with
    | block content =>
      have one := single content mem_cons_self
      refine ⟨?_, ?_⟩
      · intro element isDisputed
        unfold disputed at isDisputed
        rw [one] at isDisputed
        split at isDisputed
        · rename_i zero
          rw [zero, drop_eq_nil_of_le (by omega)] at isDisputed
          cases isDisputed
        · rename_i positive
          rw [Nat.sub_eq_zero_of_le (by omega), take_zero] at isDisputed
          cases isDisputed
      · rw [one]
        exact ih olderSingle
    | rollback count => exact ih olderSingle

end Counting

/-! ## Counting only some elements -/

section Narrow

variable (wide narrow : α → Bool) (counted : α → Bool) (element : α)

/-- An element as the block of what a count sees of it. -/
def seen : List α := if counted element then [element] else []

/--
Entries, newest first, in which no narrow element is met where the wide
elements to be taken back have all been met and the narrow ones have not.
-/
def Settled : List (Entry α) → Nat → Nat → Prop
  | [], _, _ => True
  | .block element :: older, wides, narrows =>
    if narrow element then (wides = 0 → narrows = 0) ∧ Settled older (wides - 1) (narrows - 1)
    else Settled older (if wide element then wides - 1 else wides) narrows
  | .rollback count :: older, wides, narrows => Settled older (wides + count) (narrows + count)

theorem survivors_seen (older : List (Entry α)) (pending : Nat) :
    survivors (seen counted) (.block element :: older) pending =
      if counted element then survivors (seen counted) older (pending - 1) ++
        (if pending = 0 then [element] else [])
      else survivors (seen counted) older pending := by
  rw [survivors, seen]
  cases counted element with
  | false => simp
  | true => cases pending <;> simp

variable {wide narrow}

/--
Counting narrow elements only leaves fewer of them, and the same exactly if
none is met too early.
-/
theorem survivors_narrow (within : ∀ element, narrow element = true → wide element = true)
    (entries : List (Entry α)) (wides narrows : Nat) (fewer : wides ≤ narrows) :
    (survivors (seen narrow) entries narrows).Sublist
        ((survivors (seen wide) entries wides).filter narrow) ∧
      (survivors (seen narrow) entries narrows = (survivors (seen wide) entries wides).filter narrow
        ↔ Settled wide narrow entries wides narrows) := by
  induction entries generalizing wides narrows with
  | nil => simp [survivors, Settled]
  | cons entry older ih =>
    cases entry with
    | rollback count => exact ih (wides + count) (narrows + count) (by omega)
    | block element =>
      rw [survivors_seen, survivors_seen, Settled]
      cases isNarrow : narrow element with
      | false =>
        cases isWide : wide element with
        | false => simpa [isNarrow, isWide] using ih wides narrows fewer
        | true =>
          have hidden : (if wides = 0 then [element] else []).filter narrow = [] := by
            split <;> simp [isNarrow]
          simpa [isWide, filter_append, hidden] using ih (wides - 1) narrows (by omega)
      | true =>
        have rest := ih (wides - 1) (narrows - 1) (by omega)
        simp only [within element isNarrow, if_true, filter_append]
        by_cases owed : narrows = 0
        · obtain rfl : wides = 0 := by omega
          simpa [owed, isNarrow] using rest
        · by_cases met : wides = 0
          · -- The count of all elements keeps this one, the narrow count takes it back.
            subst met
            simp only [owed, if_false, if_true, append_nil, filter_cons, isNarrow,
              filter_nil, forall_const, false_and, iff_false]
            refine ⟨rest.1.trans (sublist_append_left _ _), fun same => ?_⟩
            have longer := congrArg List.length same
            have shorter := rest.1.length_le
            simp only [length_append, length_singleton] at longer
            omega
          · simpa [owed, met] using rest

end Narrow

end Codex.Library.RolledBackBlocks
