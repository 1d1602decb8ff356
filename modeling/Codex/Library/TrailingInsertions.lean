import Mathlib.Data.List.InsertIdx

/-!
# Insertions at recorded positions

A pass over a list may want some elements to be followed by a new one.  It
records the position of each such element with what is to follow it, and
inserts afterwards, from the last position to the first, so that no recorded
position is shifted by an earlier insertion.
-/

namespace Codex.Library.TrailingInsertions

open List

variable {α : Type*} (follower : α → Option α)

/-- What is to be inserted, with the position of the element it follows. -/
def recorded (offset : Nat) (items : List α) : List (Nat × α) :=
  (items.zipIdx offset).filterMap fun numbered =>
    (follower numbered.1).map fun output => (numbered.2, output)

def insertRecorded (records : List (Nat × α)) (items : List α) : List α := records.reverse.foldl
    (fun items record => items.insertIdx (record.1 + 1) record.2) items

def followed (items : List α) : List α := items.flatMap fun item => item :: (follower item).toList

@[simp] theorem followed_nil : followed follower [] = [] := rfl

theorem followed_cons (item : α) (items : List α) : followed follower (item :: items) =
      item :: ((follower item).toList ++ followed follower items) :=
  rfl

theorem insertRecorded_cons (record : Nat × α) (records : List (Nat × α)) (items : List α) :
    insertRecorded (record :: records) items =
      (insertRecorded records items).insertIdx (record.1 + 1) record.2 := by
  simp [insertRecorded, foldl_append]

theorem insertIdx_length (front back : List α) (output : α) :
    (front ++ back).insertIdx front.length output = front ++ output :: back := by
  induction front with
  | nil => simp
  | cons item front ih => simp [insertIdx_succ_cons, ih]

theorem insertRecorded_recorded_append (front items : List α) :
    insertRecorded (recorded follower front.length items) (front ++ items) =
      front ++ followed follower items := by
  induction items generalizing front with
  | nil => simp [recorded, insertRecorded]
  | cons item items ih =>
    have rest : insertRecorded (recorded follower (front.length + 1) items)
          (front ++ item :: items) =
        (front ++ [item]) ++ followed follower items := by
      simpa using ih (front ++ [item])
    cases found : follower item with
    | none =>
      have skipped : recorded follower front.length (item :: items) =
            recorded follower (front.length + 1) items := by
        simp [recorded, zipIdx_cons, found]
      rw [skipped, rest, followed_cons, found]
      simp
    | some output =>
      have kept : recorded follower front.length (item :: items) = (front.length, output) ::
              recorded follower (front.length + 1) items := by
        simp [recorded, zipIdx_cons, found]
      have inserted := insertIdx_length (front ++ [item]) (followed follower items) output
      rw [length_append, length_singleton] at inserted
      rw [kept, insertRecorded_cons, rest, inserted, followed_cons, found]
      simp

variable {items : List α}

theorem mem_followed_iff {found : α} : found ∈ followed follower items ↔
      found ∈ items ∨ ∃ item ∈ items, follower item = some found := by
  simp only [followed, mem_flatMap, mem_cons, Option.mem_toList]
  constructor
  · rintro ⟨item, mem, rfl | output⟩
    · exact .inl mem
    · exact .inr ⟨item, mem, output⟩
  · rintro (mem | ⟨item, mem, output⟩)
    · exact ⟨found, mem, .inl rfl⟩
    · exact ⟨item, mem, .inr output⟩

theorem followed_eq_self (complete : ∀ item ∈ items, follower item = none) :
    followed follower items = items := by
  induction items with
  | nil => rfl
  | cons item items ih =>
    rw [forall_mem_cons] at complete
    rw [followed_cons, complete.1, ih complete.2]
    rfl

theorem filter_followed {keep : α → Bool}
    (kept : ∀ item ∈ items, ∀ output, follower item = some output →
      keep item = true ∧ keep output = true) :
    (followed follower items).filter keep = followed follower (items.filter keep) := by
  induction items with
  | nil => rfl
  | cons item items ih =>
    rw [forall_mem_cons] at kept
    rw [followed_cons, filter_cons, filter_append, ih kept.2, filter_cons]
    cases found : follower item with
    | none => split <;> simp [followed_cons, found]
    | some output =>
      obtain ⟨itemKept, outputKept⟩ := kept.1 output found
      simp [itemKept, outputKept, followed_cons, found]

theorem map_followed {change : α → α} (carried : ∀ item ∈ items,
      follower (change item) = (follower item).map change) :
    (followed follower items).map change = followed follower (items.map change) := by
  induction items with
  | nil => rfl
  | cons item items ih =>
    rw [forall_mem_cons] at carried
    rw [followed_cons, map_cons, map_append, ih carried.2, map_cons, followed_cons, carried.1]
    cases follower item <;> rfl

end Codex.Library.TrailingInsertions
