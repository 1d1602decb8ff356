import Mathlib.Algebra.GroupWithZero.Nat
import Mathlib.Data.List.DropRight
import Mathlib.Data.List.Infix

/-!
# Cutting a list before its marked elements

A list whose elements may be *marked* splits into a head before the first
mark and one segment for each mark.  This module cuts such a list before its
`n`-th mark, counted from either end, and optionally trims a kind of unmarked
elements that stand right above the cut.
-/

namespace Codex.Library.MarkedCuts

open List

variable {α : Type*} (marked trimmed : α → Bool)

/-! ## Positions of the marks -/

/-- The indices of the marked elements, counted from `start`. -/
def positionsFrom : Nat → List α → List Nat
  | _, [] => []
  | start, head :: tail =>
    if marked head then start :: positionsFrom (start + 1) tail
    else positionsFrom (start + 1) tail

def positions (items : List α) : List Nat := positionsFrom marked 0 items

@[simp]
theorem length_positionsFrom (start : Nat) (items : List α) :
    (positionsFrom marked start items).length = items.countP marked := by
  induction items generalizing start with
  | nil => rfl
  | cons head tail ih =>
    by_cases isMarked : marked head <;>
      simp [positionsFrom, isMarked, ih]

variable (count : Nat) (items : List α)

@[simp]
theorem length_positions : (positions marked items).length = items.countP marked :=
  length_positionsFrom marked 0 items

/-! ## The part before a mark -/

/-- The part of a list before its mark number `count`, counted from zero. -/
def beforeMark : Nat → List α → List α
  | _, [] => []
  | count, head :: tail =>
    if marked head then
      match count with
      | 0 => []
      | count + 1 => head :: beforeMark count tail
    else head :: beforeMark count tail

theorem take_positionsFrom (start count : Nat) {pos : Nat} {items : List α}
    (found : (positionsFrom marked start items)[count]? = some pos) :
    start ≤ pos ∧ items.take (pos - start) = beforeMark marked count items := by
  induction items generalizing start count with
  | nil => simp [positionsFrom] at found
  | cons head tail ih =>
    by_cases isMarked : marked head
    · cases count with
      | zero =>
        simp only [positionsFrom, isMarked, if_true, getElem?_cons_zero, Option.some.injEq] at found
        subst found
        simp [beforeMark, isMarked]
      | succ count =>
        simp only [positionsFrom, isMarked, if_true, getElem?_cons_succ] at found
        obtain ⟨above, kept⟩ := ih (start + 1) count found
        have split : pos - start = (pos - (start + 1)) + 1 := by omega
        refine ⟨by omega, ?_⟩
        simp [split, beforeMark, isMarked, kept]
    · simp only [positionsFrom, isMarked] at found
      obtain ⟨above, kept⟩ := ih (start + 1) count found
      have split : pos - start = (pos - (start + 1)) + 1 := by omega
      refine ⟨by omega, ?_⟩
      simp [split, beforeMark, isMarked, kept]

theorem take_positions {pos : Nat} {items : List α}
    (found : (positions marked items)[count]? = some pos) :
    items.take pos = beforeMark marked count items := by
  have kept := (take_positionsFrom marked 0 count found).2
  simpa using kept

theorem beforeMark_zero : beforeMark marked 0 items = items.takeWhile fun item => !marked item := by
  induction items with
  | nil => rfl
  | cons head tail ih =>
    by_cases isMarked : marked head <;>
      simp [beforeMark, isMarked, ih]

/-- A list with few enough marks is kept whole and the cut moves on; else it sees no more. -/
theorem beforeMark_append_eq (more : List α) : beforeMark marked count (items ++ more) =
    if items.countP marked ≤ count then
      items ++ beforeMark marked (count - items.countP marked) more
    else beforeMark marked count items := by
  induction items generalizing count with
  | nil => simp
  | cons head tail ih =>
    by_cases isMarked : marked head
    · cases count with
      | zero => simp [beforeMark, isMarked]
      | succ count => simp [beforeMark, isMarked, ih, apply_ite (head :: ·)]
    · simp [beforeMark, isMarked, ih, apply_ite (head :: ·)]

theorem beforeMark_append (more : List α) (enough : items.countP marked ≤ count) :
    beforeMark marked count (items ++ more) =
      items ++ beforeMark marked (count - items.countP marked) more := by
  rw [beforeMark_append_eq, if_pos enough]

theorem beforeMark_eq_self (enough : items.countP marked ≤ count) :
    beforeMark marked count items = items := by
  simpa [beforeMark] using beforeMark_append marked count items [] enough

theorem beforeMark_isPrefix : beforeMark marked count items <+: items := by
  fun_induction beforeMark marked count items with
  | case1 => simp
  | case2 head tail isMarked => simp
  | case3 head tail isMarked count ih | case4 count head tail isMarked ih => simpa using ih

@[simp]
theorem countP_beforeMark :
    (beforeMark marked count items).countP marked = min count (items.countP marked) := by
  fun_induction beforeMark marked count items with
  | case1 => simp
  | case2 head tail isMarked => simp [isMarked]
  | case3 head tail isMarked count ih | case4 count head tail isMarked ih => simp [isMarked, ih]

theorem beforeMark_of_prefix {front items : List α} (isPrefix : front <+: items)
    (inside : count < front.countP marked) :
    beforeMark marked count front = beforeMark marked count items := by
  obtain ⟨more, rfl⟩ := isPrefix
  rw [beforeMark_append_eq, if_neg (not_le.mpr inside)]

/-! ## Trimming above a cut -/

theorem countP_rdropWhile (unmarked : ∀ item, trimmed item = true → marked item = false)
    (items : List α) : (items.rdropWhile trimmed).countP marked = items.countP marked := by
  induction items using reverseRecOn with
  | nil => rfl
  | append_singleton front last ih =>
    by_cases isTrimmed : trimmed last = true
    · rw [rdropWhile_concat_pos _ _ _ isTrimmed, ih]
      simp [unmarked last isTrimmed]
    · rw [rdropWhile_concat_neg _ _ _ isTrimmed]

theorem rdropWhile_append_of_all {tail : List α} (all : ∀ item ∈ tail, trimmed item = true) :
    (items ++ tail).rdropWhile trimmed = items.rdropWhile trimmed := by
  unfold List.rdropWhile
  rw [reverse_append, dropWhile_append_of_pos (by simpa using all)]

/-- Trimming cuts a list down to a front of it exactly if the rest is all trimmed. -/
theorem append_rdropWhile_isPrefix_iff (front rest : List α) :
    (front ++ rest).rdropWhile trimmed <+: front ↔ ∀ item ∈ rest, trimmed item = true := by
  constructor
  · intro isPrefix
    induction rest using reverseRecOn with
    | nil => simp
    | append_singleton rest last ih =>
      rw [← append_assoc] at isPrefix
      by_cases isTrimmed : trimmed last = true
      · rw [rdropWhile_concat_pos _ _ _ isTrimmed] at isPrefix
        simpa [or_imp, forall_and, isTrimmed] using ih isPrefix
      · rw [rdropWhile_concat_neg _ _ _ isTrimmed] at isPrefix
        exact absurd isPrefix.length_le (by simp)
  · intro all
    rw [rdropWhile_append_of_all _ _ all]
    exact rdropWhile_prefix _ _

/-! ## Dropping the last marks -/

/--
Drop the last `count` marks with everything after them, and the trimmed
elements right above the cut.  The part before the first mark always stays
whole.
-/
def dropMarked (count : Nat) (items : List α) : List α :=
  if count = 0 ∨ items.countP marked = 0 then items
  else if items.countP marked ≤ count then beforeMark marked 0 items
  else (beforeMark marked (items.countP marked - count) items).rdropWhile trimmed

@[simp]
theorem dropMarked_zero : dropMarked marked trimmed 0 items = items := by simp [dropMarked]

theorem dropMarked_of_unmarked (unmarked : items.countP marked = 0) :
    dropMarked marked trimmed count items = items := by
  simp [dropMarked, unmarked]

/-- Dropping at least every mark keeps the part before the first one. -/
theorem dropMarked_of_le (positive : 0 < count) (all : items.countP marked ≤ count) :
    dropMarked marked trimmed count items = beforeMark marked 0 items := by
  by_cases unmarked : items.countP marked = 0
  · rw [dropMarked_of_unmarked marked trimmed count items unmarked,
      beforeMark_eq_self marked 0 items (by omega)]
  · have nonzero : ¬(count = 0 ∨ items.countP marked = 0) := by omega
    rw [dropMarked, if_neg nonzero, if_pos all]

/-- Dropping some but not all marks cuts before one of them and trims. -/
theorem dropMarked_of_lt (positive : 0 < count) (some : count < items.countP marked) :
    dropMarked marked trimmed count items = (beforeMark marked (items.countP marked - count)
        items).rdropWhile trimmed := by
  have nonzero : ¬(count = 0 ∨ items.countP marked = 0) := by omega
  rw [dropMarked, if_neg nonzero, if_neg (by omega)]

theorem dropMarked_isPrefix : dropMarked marked trimmed count items <+: items := by
  unfold dropMarked
  split
  · exact prefix_refl items
  · split
    · exact beforeMark_isPrefix marked 0 items
    · have shorter := rdropWhile_prefix trimmed
        (beforeMark marked (items.countP marked - count) items)
      exact shorter.trans (beforeMark_isPrefix marked _ items)

variable (unmarked : ∀ item, trimmed item = true → marked item = false)
include unmarked

theorem countP_dropMarked (count : Nat) (items : List α) :
    (dropMarked marked trimmed count items).countP marked = items.countP marked - count := by
  unfold dropMarked
  split
  · omega
  · split
    · rw [countP_beforeMark]
      omega
    · rw [countP_rdropWhile marked trimmed unmarked, countP_beforeMark]
      omega

/-- Cutting off `first` marks and then `second` more cuts off their sum. -/
theorem dropMarked_dropMarked (first second : Nat) (items : List α) :
    dropMarked marked trimmed second (dropMarked marked trimmed first items) =
      dropMarked marked trimmed (first + second) items := by
  rcases Nat.eq_zero_or_pos first with rfl | firstPositive
  · simp
  rcases Nat.eq_zero_or_pos second with rfl | secondPositive
  · simp
  have rest := countP_dropMarked marked trimmed unmarked first items
  rcases Nat.lt_or_ge first (items.countP marked) with inside | all
  · have isPrefix := dropMarked_isPrefix marked trimmed first items
    rcases Nat.lt_or_ge (first + second) (items.countP marked) with
      bothInside | bothAll
    · rw [dropMarked_of_lt marked trimmed second _ secondPositive (by omega),
        dropMarked_of_lt marked trimmed (first + second) items (by omega) bothInside,
        beforeMark_of_prefix marked _ isPrefix (by omega), rest,
        Nat.sub_sub]
    · rw [dropMarked_of_le marked trimmed second _ secondPositive (by omega),
        dropMarked_of_le marked trimmed (first + second) items (by omega) bothAll,
        beforeMark_of_prefix marked 0 isPrefix (by omega)]
  · rw [dropMarked_of_unmarked marked trimmed second _ (by omega),
      dropMarked_of_le marked trimmed first items firstPositive all,
      dropMarked_of_le marked trimmed (first + second) items (by omega) (by omega)]

theorem beforeMark_isPrefix_dropMarked (count : Nat) (items : List α) :
    beforeMark marked 0 items <+: dropMarked marked trimmed count items := by
  have marks := countP_dropMarked marked trimmed unmarked count items
  rcases Nat.lt_or_ge count (items.countP marked) with inside | all
  · rw [← beforeMark_of_prefix marked 0 (dropMarked_isPrefix marked trimmed count items) (by omega)]
    exact beforeMark_isPrefix marked 0 _
  · rcases Nat.eq_zero_or_pos count with rfl | positive
    · simpa using beforeMark_isPrefix marked 0 items
    · rw [dropMarked_of_le marked trimmed count items positive all]

omit unmarked

theorem trimmed_last_dropMarked (positive : 0 < count) (some : 0 < items.countP marked)
    {front : List α} {last : α} (ends : dropMarked marked trimmed count items = front ++ [last])
    (above : 0 < front.countP marked) : trimmed last = false := by
  rcases Nat.lt_or_ge count (items.countP marked) with inside | all
  · rw [dropMarked_of_lt marked trimmed count items positive inside] at ends
    have kept := rdropWhile_idempotent trimmed
      (beforeMark marked (items.countP marked - count) items)
    by_contra isTrimmed
    rw [ends, rdropWhile_concat_pos _ _ _ (by simpa using isTrimmed)] at kept
    have shorter := ( rdropWhile_prefix trimmed front).length_le
    simp only [kept, length_append, length_singleton] at shorter
    omega
  · rw [dropMarked_of_le marked trimmed count items positive all] at ends
    have none := congrArg (List.countP marked) ends
    rw [countP_beforeMark, countP_append] at none
    omega

/-! ## Covering a count -/

section Covering

variable (weight : α → Nat)

/-- The shortest front of a list whose weights cover a count. -/
def coveringFront : Nat → List α → List α
  | 0, _ => []
  | _, [] => []
  | count + 1, head :: tail => head :: coveringFront (count + 1 - weight head) tail

theorem coveringFront_isPrefix (count : Nat) (items : List α) :
    coveringFront weight count items <+: items := by
  fun_induction coveringFront weight count items with
  | case1 => exact nil_prefix
  | case2 => exact nil_prefix
  | case3 count head tail ih => exact cons_prefix_cons.mpr ⟨rfl, ih⟩

theorem coveringFront_sum_append (front rest : List α)
    (positive : ∀ item ∈ front, 0 < weight item) :
    coveringFront weight (front.map weight).sum (front ++ rest) = front := by
  induction front with
  | nil => simp [coveringFront]
  | cons head tail ih =>
    have headPositive := positive head (by simp)
    have tailCovered := ih (forall_mem_cons.mp positive).2
    obtain ⟨count, sumEq⟩ : ∃ count, ((head :: tail).map weight).sum = count + 1 :=
      Nat.exists_eq_succ_of_ne_zero (by simp; omega)
    have remaining : count + 1 - weight head = (tail.map weight).sum := by
      rw [← sumEq]
      simp
    rw [sumEq, cons_append, coveringFront, remaining, tailCovered]

theorem coveringFront_append_of_lt (count : Nat) {front : List α} (next : α) (rest : List α)
    (above : (front.map weight).sum < count) :
    ∃ more, coveringFront weight count (front ++ next :: rest) = front ++ next :: more := by
  induction front generalizing count with
  | nil =>
    obtain ⟨count, rfl⟩ := Nat.exists_eq_succ_of_ne_zero (Nat.ne_of_gt (Nat.zero_lt_of_lt above))
    exact ⟨_, rfl⟩
  | cons head tail ih =>
    simp only [map_cons, sum_cons] at above
    obtain ⟨count, rfl⟩ := Nat.exists_eq_succ_of_ne_zero (Nat.ne_of_gt (Nat.zero_lt_of_lt above))
    obtain ⟨more, covered⟩ := ih (count + 1 - weight head) (by omega)
    exact ⟨more, by simp [coveringFront, covered]⟩

end Covering

/-! ## Marks at the end -/

/-- A list whose marked elements come last, cut before them. -/
theorem eq_filter_append_filter {marked : α → Bool} {elements : List α}
    (last : elements.Pairwise fun earlier later => marked earlier = true → marked later = true) :
    elements = elements.filter (fun element => !marked element) ++ elements.filter marked := by
  induction last with
  | nil => rfl
  | @cons element rest after _ ih =>
    cases mark : marked element with
    | false =>
      simp only [filter_cons, mark, Bool.not_false, if_true, cons_append]
      simpa using ih
    | true =>
      have all : ∀ later ∈ rest, marked later = true := fun later listed => after later listed mark
      have none : rest.filter (fun element => !marked element) = [] := by simpa using all
      rw [filter_cons_of_neg (by simp [mark]), none,
        filter_cons_of_pos mark, filter_eq_self.mpr all,
        nil_append]

end Codex.Library.MarkedCuts
