import Mathlib.Data.List.Nodup
import Mathlib.Data.List.Perm.Subperm

/-!
# Choosing unused names

Each item of a list is given a choice whose key nobody before it has taken.
An item first tries the choice it prefers and then a numbered supply.  If the
keys of the supply are distinct, one more number than there are taken keys is
enough.
-/

namespace Codex.Library.FreshChoice

open List

variable {Item Choice Key : Type*} {supply : Nat → Choice} (fuel attempt : Nat)

/-! ## Searching a supply -/

section Search

variable [DecidableEq Key]

/-- The first choice of a supply, from a number on, whose key is not taken. -/
def search (key : Choice → Key) (supply : Nat → Choice) (taken : List Key) :
    Nat → Nat → Option Choice
  | 0, _ => none
  | fuel + 1, attempt =>
    if key (supply attempt) ∈ taken then search key supply taken fuel (attempt + 1)
    else some (supply attempt)

variable {key : Choice → Key} {taken : List Key}

/-- A found choice is a numbered one with a key that is not taken. -/
theorem search_eq_some {choice : Choice}
    (found : search key supply taken fuel attempt = some choice) :
    key choice ∉ taken ∧ ∃ number, number < attempt + fuel ∧ choice = supply number := by
  induction fuel generalizing attempt with
  | zero => simp [search] at found
  | succ fuel ih =>
    rw [search] at found
    split at found
    next =>
      obtain ⟨unused, number, bound, same⟩ := ih (attempt + 1) found
      exact ⟨unused, number, by omega, same⟩
    next unused =>
      obtain rfl := Option.some.inj found
      exact ⟨unused, attempt, by omega, rfl⟩

theorem search_eq_none (missing : search key supply taken fuel attempt = none) :
    ∀ offset < fuel, key (supply (attempt + offset)) ∈ taken := by
  induction fuel generalizing attempt with
  | zero => intro offset bound; omega
  | succ fuel ih =>
    rw [search] at missing
    split at missing
    next used =>
      intro offset bound
      cases offset with
      | zero => exact used
      | succ offset =>
        have later := ih (attempt + 1) missing offset (by omega)
        rwa [Nat.add_right_comm, Nat.add_assoc] at later
    next => cases missing

/-- Distinct keys for more numbers than there are taken keys suffice. -/
theorem exists_search_eq_some {fuel : Nat} (enough : taken.length < fuel)
    (distinct : ∀ left < fuel, ∀ right < fuel,
      key (supply left) = key (supply right) → left = right) :
    ∃ choice, search key supply taken fuel 0 = some choice := by
  cases outcome : search key supply taken fuel 0 with
  | some choice => exact ⟨choice, rfl⟩
  | none =>
    exfalso
    have used := search_eq_none fuel 0 outcome
    have keysDistinct : ((List.range fuel).map fun number =>
          key (supply number)).Nodup := by
      refine Nodup.map_on ?_ nodup_range
      intro left leftBound right rightBound same
      exact distinct left (mem_range.mp leftBound) right (mem_range.mp rightBound) same
    have contained : ((List.range fuel).map fun number => key (supply number)) ⊆ taken := by
      intro found mem
      obtain ⟨number, bound, rfl⟩ := mem_map.mp mem
      simpa using used number (mem_range.mp bound)
    have sized := (keysDistinct.subperm contained).length_le
    rw [length_map, length_range] at sized
    omega

end Search

/-! ## A whole list -/

/-- Give every item a choice, taking its key for the items after it. -/
def assign (key : Choice → Key) (choose : List Key → Item → Option Choice) :
    List Key → List Item → Option (List Choice)
  | _, [] => some []
  | taken, item :: items => do
      let choice ← choose taken item
      let choices ← assign key choose (key choice :: taken) items
      return choice :: choices

variable {key : Choice → Key} {choose : List Key → Item → Option Choice} {items : List Item}

theorem assign_cons_eq_some {taken : List Key} {item : Item} {choices : List Choice}
    (assigned : assign key choose taken (item :: items) = some choices) :
    ∃ choice rest, choose taken item = some choice ∧
      assign key choose (key choice :: taken) items = some rest ∧ choices = choice :: rest := by
  simp only [assign, Option.bind_eq_bind, Option.bind_eq_some_iff,
    Option.pure_def, Option.some.injEq] at assigned
  obtain ⟨choice, chosen, rest, later, rfl⟩ := assigned
  exact ⟨choice, rest, chosen, later, rfl⟩

variable (taken : List Key)

/-- Every choice is one that its item makes after some others. -/
theorem assign_forall₂ (choices : List Choice)
    (assigned : assign key choose taken items = some choices) :
    Forall₂ (fun item choice => ∃ before : List Key,
        before.length < taken.length + items.length ∧ choose before item = some choice)
      items choices := by
  induction items generalizing taken choices with
  | nil =>
    obtain rfl := Option.some.inj assigned
    exact Forall₂.nil
  | cons item items ih =>
    obtain ⟨choice, rest, chosen, later, rfl⟩ := assign_cons_eq_some assigned
    refine Forall₂.cons ⟨taken, by simp, chosen⟩ ?_
    refine (ih _ rest later).imp ?_
    rintro item choice ⟨before, bound, made⟩
    refine ⟨before, ?_, made⟩
    simp only [length_cons] at bound ⊢
    omega

theorem assign_nodup (fresh : ∀ taken item choice, choose taken item = some choice →
      key choice ∉ taken) (taken : List Key) (choices : List Choice)
    (assigned : assign key choose taken items = some choices) :
    (choices.map key).Nodup ∧ ∀ choice ∈ choices, key choice ∉ taken := by
  induction items generalizing taken choices with
  | nil =>
    obtain rfl := Option.some.inj assigned
    simp
  | cons item items ih =>
    obtain ⟨choice, rest, chosen, later, rfl⟩ := assign_cons_eq_some assigned
    obtain ⟨distinct, avoided⟩ := ih _ rest later
    refine ⟨?_, ?_⟩
    · rw [map_cons, nodup_cons]
      refine ⟨?_, distinct⟩
      intro repeated
      obtain ⟨other, mem, same⟩ := mem_map.mp repeated
      exact avoided other mem (same ▸ mem_cons_self)
    · intro other mem
      rcases mem_cons.mp mem with rfl | inRest
      · exact fresh taken item other chosen
      · exact fun used => avoided other inRest (mem_cons_of_mem _ used)

/-- If every item finds a choice while few keys are taken, all do. -/
theorem exists_assign_eq_some (total : ∀ item ∈ items, ∀ before : List Key,
      before.length < taken.length + items.length → ∃ choice, choose before item = some choice) :
    ∃ choices, assign key choose taken items = some choices := by
  induction items generalizing taken with
  | nil => exact ⟨[], rfl⟩
  | cons item items ih =>
    obtain ⟨choice, chosen⟩ := total item mem_cons_self taken (by simp)
    obtain ⟨rest, later⟩ := ih (key choice :: taken) (by
      intro other mem before bound
      refine total other (mem_cons_of_mem _ mem) before ?_
      simp only [length_cons] at bound ⊢
      omega)
    exact ⟨choice :: rest, by simp [assign, chosen, later]⟩

/-- If every item gets what it prefers, the choices are the preferences. -/
theorem assign_eq_map {preferred : Item → Choice}
    (granted : ∀ taken item, key (preferred item) ∉ taken →
      item ∈ items → choose taken item = some (preferred item))
    (distinct : (items.map fun item => key (preferred item)).Nodup)
    (unused : ∀ item ∈ items, key (preferred item) ∉ taken) :
    assign key choose taken items = some (items.map preferred) := by
  induction items generalizing taken with
  | nil => rfl
  | cons item items ih =>
    rw [map_cons, nodup_cons] at distinct
    have first := granted taken item (unused item mem_cons_self) mem_cons_self
    have later := ih (key (preferred item) :: taken) (fun taken other free mem =>
        granted taken other free (mem_cons_of_mem _ mem))
      distinct.2
      (by
        intro other mem used
        rcases mem_cons.mp used with same | old
        · exact distinct.1 (mem_map.mpr ⟨other, mem, same⟩)
        · exact unused other (mem_cons_of_mem _ mem) old)
    simp [assign, first, later]

end Codex.Library.FreshChoice
