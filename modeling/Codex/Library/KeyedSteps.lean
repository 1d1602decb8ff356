import Mathlib.Data.List.Basic

/-!
# Steps on a map, shown by one entry per key

A step sets or removes the value at its key, or moves it to another key.  Each
step has a value that it was shown to put and the value that it puts when its
turn comes.  A table keeps the last step of each key.  The table describes what
the steps do to a map if the steps do not get into each other's way
(`Orderly`), and, unless values happen to coincide, only then.
-/

namespace Codex.Library.KeyedSteps

open List Function

variable {κ β : Type*}

/-! ## Steps -/

/-- A step, with the value it was shown to put and the one it puts. -/
inductive Step (κ β : Type*) where
  | set (key : κ) (shown done : Option β)
  | move (key dest : κ) (shown done : β)

namespace Step

def key : Step κ β → κ
  | .set key _ _ => key
  | .move key _ _ _ => key

def dest? : Step κ β → Option κ
  | .set _ _ _ => none
  | .move _ dest _ _ => some dest

def shownValue : Step κ β → Option β
  | .set _ shown _ => shown
  | .move _ _ shown _ => some shown

def doneValue : Step κ β → Option β
  | .set _ _ done => done
  | .move _ _ _ done => some done

def Touches (step : Step κ β) (place : κ) : Prop := step.key = place ∨ step.dest? = some place

instance [DecidableEq κ] (step : Step κ β) (place : κ) : Decidable (step.Touches place) :=
  inferInstanceAs (Decidable (_ ∨ _))

/-- What the step was shown to do holds of a map. -/
def ShownIn (after : κ → Option β) : Step κ β → Prop
  | .set key shown _ => after key = shown
  | .move key dest shown _ => after key = none ∧ after dest = some shown

variable [DecidableEq κ]

def run (map : κ → Option β) : Step κ β → κ → Option β
  | .set key _ done => Function.update map key done
  | .move key dest _ done => Function.update (Function.update map dest (some done)) key none

theorem run_of_not_touches {step : Step κ β} {place : κ}
    (apart : ¬ step.Touches place) (map : κ → Option β) : step.run map place = map place := by
  unfold Touches at apart
  rw [not_or] at apart
  cases step with
  | set key shown done => exact update_of_ne (Ne.symm apart.1) _ _
  | move key dest shown done =>
    have other : place ≠ dest := by
      rintro rfl
      exact apart.2 rfl
    have source : place ≠ key := Ne.symm apart.1
    simp only [run]
    rw [update_of_ne source, update_of_ne other]

theorem run_of_touches {step : Step κ β} {place : κ}
    (touches : step.Touches place) (map : κ → Option β) :
    step.run map place = step.doneValue ∨ (step.run map place = none ∧ step.key = place) := by
  cases step with
  | set key shown done =>
    left
    rcases touches with rfl | impossible
    · exact update_self _ _ _
    · cases impossible
  | move key dest shown done =>
    by_cases same : key = place
    · right
      refine ⟨?_, same⟩
      rw [← same]
      exact update_self _ _ _
    · left
      have isDest : dest = place := by
        rcases touches with isKey | isDest
        · exact absurd isKey same
        · exact Option.some.inj isDest
      simp only [run]
      rw [update_of_ne (Ne.symm same), isDest, update_self]
      rfl

end Step

open Step

section Maps

variable [DecidableEq κ]

def runAll (steps : List (Step κ β)) (map : κ → Option β) : κ → Option β := steps.foldl Step.run map

@[simp]
theorem runAll_cons (step : Step κ β) (steps : List (Step κ β)) (map : κ → Option β) :
    runAll (step :: steps) map = runAll steps (step.run map) := rfl

variable {steps : List (Step κ β)} {place : κ} {step : Step κ β} {later : List (Step κ β)}
  {before : κ → Option β}

theorem runAll_of_not_touches (apart : ∀ step ∈ steps, ¬ step.Touches place) (map : κ → Option β) :
    runAll steps map place = map place := by
  induction steps generalizing map with
  | nil => rfl
  | cons step steps ih =>
    rw [forall_mem_cons] at apart
    rw [runAll_cons, ih apart.2, run_of_not_touches apart.1]

theorem runAll_of_touches (touched : ∃ step ∈ steps, step.Touches place) (map : κ → Option β) :
    ∃ step ∈ steps, step.Touches place ∧ (runAll steps map place = step.doneValue ∨
        (runAll steps map place = none ∧ step.key = place)) := by
  induction steps generalizing map with
  | nil => simp at touched
  | cons step steps ih =>
    by_cases later : ∃ step ∈ steps, step.Touches place
    · obtain ⟨last, mem, touches, value⟩ := ih later (step.run map)
      exact ⟨last, mem_cons_of_mem _ mem, touches, value⟩
    · have untouched : ∀ step ∈ steps, ¬ step.Touches place := by
        intro other mem touches
        exact later ⟨other, mem, touches⟩
      have touches : step.Touches place := by
        obtain ⟨other, mem, touches⟩ := touched
        rcases mem_cons.mp mem with rfl | mem
        · exact touches
        · exact absurd touches (untouched other mem)
      refine ⟨step, mem_cons_self, touches, ?_⟩
      rw [runAll_cons, runAll_of_not_touches untouched]
      exact run_of_touches touches map

theorem runAll_of_moved (touched : ∃ step ∈ steps, step.Touches place)
    (noKey : ∀ step ∈ steps, step.key ≠ place) (map : κ → Option β) :
    ∃ step ∈ steps, ∃ value, step.doneValue = some value ∧ runAll steps map place = some value := by
  obtain ⟨step, mem, touches, put | ⟨-, isKey⟩⟩ := runAll_of_touches touched map
  · refine ⟨step, mem, ?_⟩
    cases step with
    | set key shown done =>
      rcases touches with isKey | isDest
      · exact absurd isKey (noKey _ mem)
      · cases isDest
    | move key dest shown done => exact ⟨done, rfl, put⟩
  · exact absurd isKey (noKey step mem)

/-! ## The table of last steps -/

def lastFor (key : κ) : List (Step κ β) → Option (Step κ β)
  | [] => none
  | step :: steps =>
    match lastFor key steps with
    | some last => some last
    | none => if step.key = key then some step else none

theorem lastFor_eq_none_iff (key : κ) (steps : List (Step κ β)) :
    lastFor key steps = none ↔ ∀ step ∈ steps, step.key ≠ key := by
  induction steps with
  | nil => simp [lastFor]
  | cons step steps ih =>
    rw [forall_mem_cons, ← ih, lastFor]
    cases lastFor key steps <;> simp

theorem lastFor_key {key : κ} {last : Step κ β} (found : lastFor key steps = some last) :
    last ∈ steps ∧ last.key = key := by
  induction steps with
  | nil => cases found
  | cons step steps ih =>
    rw [lastFor] at found
    cases later : lastFor key steps with
    | some other =>
      rw [later] at found ih
      obtain ⟨mem, same⟩ := ih found
      exact ⟨mem_cons_of_mem _ mem, same⟩
    | none =>
      simp only [later, Option.ite_none_right_eq_some] at found
      obtain ⟨same, equal⟩ := found
      cases equal
      exact ⟨mem_cons_self, same⟩

theorem exists_lastFor_of_key {key : κ} (isKey : ∃ step ∈ steps, step.key = key) :
    ∃ step, lastFor key steps = some step ∧ step.Touches key := by
  cases found : lastFor key steps with
  | some step => exact ⟨step, rfl, .inl (lastFor_key found).2⟩
  | none =>
    obtain ⟨step, mem, same⟩ := isKey
    exact absurd same ((lastFor_eq_none_iff key steps).mp found step mem)

/-- A step that another one with its key follows does not show. -/
theorem lastFor_cons_of_mem (later : ∃ other ∈ steps, other.key = step.key) (key : κ) :
    lastFor key (step :: steps) = lastFor key steps := by
  rw [lastFor]
  cases found : lastFor key steps with
  | some last => rfl
  | none =>
    rw [lastFor_eq_none_iff] at found
    obtain ⟨other, mem, same⟩ := later
    exact if_neg (same ▸ found other mem)

theorem lastFor_cons_of_not_mem (last : ∀ other ∈ steps, other.key ≠ step.key) (key : κ) :
    lastFor key (step :: steps) = if step.key = key then some step else lastFor key steps := by
  rw [lastFor]
  split
  next found =>
    split
    next same =>
      have missing := (lastFor_eq_none_iff key steps).mpr (same ▸ last)
      rw [missing] at found
      cases found
    · exact found.symm
  next missing => rw [missing]

/-- What the table says holds of the map after, and nothing else changes. -/
structure Describes (steps : List (Step κ β)) (before after : κ → Option β) : Prop where
  shows : ∀ key step, lastFor key steps = some step → step.ShownIn after
  others : ∀ place, (∀ key step, lastFor key steps = some step → ¬ step.Touches place) →
      after place = before place

/-! ## Steps that keep out of each other's way -/

/--
The last step of a key puts what it was shown to put, does not move onto its
own key, and nothing later touches what it has put.  Where a move is not the
last step of its key, a later step touches its destination.
-/
def Orderly : List (Step κ β) → Prop
  | [] => True
  | step :: later =>
    (if ∃ other ∈ later, other.key = step.key then
      ∀ dest ∈ step.dest?, ∃ other ∈ later, other.Touches dest
    else
      step.shownValue = step.doneValue ∧ step.dest? ≠ some step.key ∧
        (∀ other ∈ later, other.dest? ≠ some step.key) ∧
        ∀ dest ∈ step.dest?, ∀ other ∈ later, ¬ other.Touches dest) ∧
    Orderly later

instance decidableOrderly [DecidableEq β] : (steps : List (Step κ β)) → Decidable (Orderly steps)
  | [] => inferInstanceAs (Decidable True)
  | _ :: later =>
    have := decidableOrderly later
    inferInstanceAs (Decidable (_ ∧ Orderly later))

theorem Orderly.exists_lastFor (orderly : Orderly steps)
    (touched : ∃ step ∈ steps, step.Touches place) :
    ∃ key step, lastFor key steps = some step ∧ step.Touches place := by
  induction steps with
  | nil => simp at touched
  | cons step later ih =>
    obtain ⟨head, rest⟩ := orderly
    by_cases again : ∃ other ∈ later, other.key = step.key
    · rw [if_pos again] at head
      have touchedLater : ∃ other ∈ later, other.Touches place := by
        obtain ⟨other, mem, touches⟩ := touched
        rcases mem_cons.mp mem with rfl | mem
        · rcases touches with isKey | isDest
          · obtain ⟨next, nextMember, same⟩ := again
            exact ⟨next, nextMember, .inl (same.trans isKey)⟩
          · exact head place isDest
        · exact ⟨other, mem, touches⟩
      obtain ⟨key, last, found, touches⟩ := ih rest touchedLater
      exact ⟨key, last, (lastFor_cons_of_mem again key).trans found, touches⟩
    · have last : ∀ other ∈ later, other.key ≠ step.key := by
        intro other mem same
        exact again ⟨other, mem, same⟩
      by_cases here : step.Touches place
      · refine ⟨step.key, step, ?_, here⟩
        rw [lastFor_cons_of_not_mem last, if_pos rfl]
      · have touchedLater : ∃ other ∈ later, other.Touches place := by
          obtain ⟨other, mem, touches⟩ := touched
          rcases mem_cons.mp mem with rfl | mem
          · exact absurd touches here
          · exact ⟨other, mem, touches⟩
        obtain ⟨key, shown, found, touches⟩ := ih rest touchedLater
        refine ⟨key, shown, ?_, touches⟩
        rw [lastFor_cons_of_not_mem last, if_neg, found]
        rintro rfl
        obtain ⟨mem, same⟩ := lastFor_key found
        exact last shown mem same

/-- A step whose key and destination are untouched later shows. -/
theorem ShownIn.of_last (same : step.shownValue = step.doneValue)
    (apart : step.dest? ≠ some step.key) (keyKept : ∀ other ∈ later, ¬ other.Touches step.key)
    (destKept : ∀ dest, step.dest? = some dest → ∀ other ∈ later, ¬ other.Touches dest)
    (map : κ → Option β) : step.ShownIn (runAll later (step.run map)) := by
  cases step with
  | set key shown done =>
    have kept := runAll_of_not_touches keyKept ((Step.set key shown done).run map)
    exact kept.trans ((update_self _ _ _).trans same.symm)
  | move key dest shown done =>
    have differs : dest ≠ key := fun equal => apart (congrArg some equal)
    have value : done = shown := (Option.some.inj same).symm
    refine ⟨?_, ?_⟩
    · exact (runAll_of_not_touches keyKept _).trans (update_self _ _ _)
    · rw [runAll_of_not_touches (destKept dest rfl)]
      simp only [run]
      rw [update_of_ne differs, update_self, value]

theorem Orderly.describes (orderly : Orderly steps) (before : κ → Option β) :
    Describes steps before (runAll steps before) := by
  induction steps generalizing before with
  | nil =>
    constructor
    · intro key step found
      cases found
    · intro place _
      rfl
  | cons step later ih =>
    have whole := orderly
    obtain ⟨head, rest⟩ := orderly
    have after := ih rest (step.run before)
    have others : ∀ place, (∀ key shown, lastFor key (step :: later) = some shown →
          ¬ shown.Touches place) →
        runAll (step :: later) before place = before place := by
      intro place unseen
      refine runAll_of_not_touches ?_ before
      intro other mem touches
      obtain ⟨key, shown, found, shownTouches⟩ := whole.exists_lastFor ⟨other, mem, touches⟩
      exact unseen key shown found shownTouches
    refine ⟨?_, others⟩
    intro key shown found
    by_cases again : ∃ other ∈ later, other.key = step.key
    · rw [lastFor_cons_of_mem again] at found
      exact after.shows key shown found
    · rw [if_neg again] at head
      have last : ∀ other ∈ later, other.key ≠ step.key := by
        intro other mem same
        exact again ⟨other, mem, same⟩
      rw [lastFor_cons_of_not_mem last] at found
      split at found
      · cases found
        obtain ⟨same, apart, keyKept, destKept⟩ := head
        refine ShownIn.of_last same apart ?_ destKept before
        rintro other mem (isKey | isDest)
        · exact last other mem isKey
        · exact keyKept other mem isDest
      · exact after.shows key shown found

/-! ## Without coincidences the condition is necessary -/

def Differ (left right : Option β) : Prop := ∀ value, left = some value → right ≠ some value

/--
No two steps put or show one value, and none puts a value that the map has.
-/
structure Telling (steps : List (Step κ β)) (map : κ → Option β) : Prop where
  apart : steps.Pairwise fun first second =>
    Differ first.doneValue second.doneValue ∧ Differ first.doneValue second.shownValue ∧
      Differ first.shownValue second.doneValue
  fresh : ∀ step ∈ steps, ∀ place, Differ step.doneValue (map place)

variable {map : κ → Option β}

theorem Telling.tail (telling : Telling (step :: later) map) : Telling later (step.run map) := by
  obtain ⟨first, rest⟩ := pairwise_cons.mp telling.apart
  refine ⟨rest, ?_⟩
  intro other mem place value isDone
  have unlike := telling.fresh other (mem_cons_of_mem _ mem) place
  by_cases touches : step.Touches place
  · rcases run_of_touches touches map with put | ⟨removed, -⟩
    · rw [put]
      intro isPut
      exact (first other mem).1 value isPut isDone
    · rw [removed]
      exact Option.some_ne_none value |>.symm
  · rw [run_of_not_touches touches]
    exact unlike value isDone

theorem Telling.touched_ne_shown (telling : Telling (step :: later) map) {value : β}
    (touched : ∃ other ∈ later, other.Touches place)
    (shown : step.shownValue = some value) (start : κ → Option β) :
    runAll later start place ≠ some value := by
  obtain ⟨first, -⟩ := pairwise_cons.mp telling.apart
  obtain ⟨other, mem, -, put | ⟨removed, -⟩⟩ := runAll_of_touches touched start
  · rw [put]
    exact (first other mem).2.2 value shown
  · rw [removed]
    exact Option.some_ne_none value |>.symm

theorem Telling.touched_later (telling : Telling (step :: later) before)
    (again : ∃ other ∈ later, other.key = step.key)
    (describes : Describes (step :: later) before (runAll later (step.run before)))
    {dest : κ} (isDest : step.dest? = some dest) :
    ∃ key shown, lastFor key later = some shown ∧ shown.Touches dest := by
  by_contra unseen
  push Not at unseen
  have noKey : ∀ other ∈ later, other.key ≠ dest := by
    intro other mem isKey
    obtain ⟨shown, found, touches⟩ := exists_lastFor_of_key ⟨other, mem, isKey⟩
    exact unseen dest shown found touches
  have kept : runAll later (step.run before) dest = before dest := by
    refine describes.others dest ?_
    intro key shown found
    rw [lastFor_cons_of_mem again] at found
    exact unseen key shown found
  -- The last value put there, by a later move or by the step itself, is
  -- not the one that the map had.
  by_cases touched : ∃ other ∈ later, other.Touches dest
  · obtain ⟨other, mem, value, isDone, put⟩ := runAll_of_moved touched noKey (step.run before)
    exact telling.fresh other (mem_cons_of_mem _ mem) dest value
      isDone (kept.symm.trans put)
  · have untouched : ∀ other ∈ later, ¬ other.Touches dest := by
      intro other mem touches
      exact touched ⟨other, mem, touches⟩
    rw [runAll_of_not_touches untouched] at kept
    cases step with
    | set key shown done => cases isDest
    | move key target shown done =>
      cases isDest
      obtain ⟨other, mem, same⟩ := again
      have differs : dest ≠ key := by
        rintro rfl
        exact noKey other mem same
      refine telling.fresh _ mem_cons_self dest done rfl (kept.symm.trans ?_)
      simp only [run]
      rw [update_of_ne differs, update_self]

theorem Telling.key_kept (telling : Telling (step :: later) before)
    (last : ∀ other ∈ later, other.key ≠ step.key)
    (shownIn : step.ShownIn (runAll later (step.run before))) :
    ∀ other ∈ later, ¬ other.Touches step.key := by
  intro other mem touches
  obtain ⟨mover, moverMember, value, isDone, put⟩ :=
    runAll_of_moved ⟨other, mem, touches⟩ last (step.run before)
  obtain ⟨first, -⟩ := pairwise_cons.mp telling.apart
  cases step with
  | set key shown done =>
    have isShown : shown = some value := shownIn.symm.trans put
    exact (first mover moverMember).2.2 value isShown isDone
  | move key dest shown done => exact nomatch shownIn.1.symm.trans put

theorem Telling.step_kept (telling : Telling (step :: later) before)
    (keyKept : ∀ other ∈ later, ¬ other.Touches step.key)
    (shownIn : step.ShownIn (runAll later (step.run before))) :
    step.shownValue = step.doneValue ∧ step.dest? ≠ some step.key ∧ ∀ dest, step.dest? = some dest →
        ∀ other ∈ later, ¬ other.Touches dest := by
  cases step with
  | set key shown done =>
    refine ⟨?_, nofun, nofun⟩
    exact shownIn.symm.trans ((runAll_of_not_touches keyKept _).trans (update_self _ _ _))
  | move key dest shown done =>
    obtain ⟨removed, put⟩ := shownIn
    have differs : dest ≠ key := by
      rintro rfl
      exact nomatch removed.symm.trans put
    have untouched : ∀ other ∈ later, ¬ other.Touches dest := by
      intro other mem touches
      exact telling.touched_ne_shown ⟨other, mem, touches⟩ rfl _ put
    refine ⟨?_, fun same => differs (Option.some.inj same), ?_⟩
    · rw [runAll_of_not_touches untouched] at put
      simp only [run] at put
      rw [update_of_ne differs, update_self] at put
      exact put.symm
    · rintro _ ⟨⟩
      exact untouched

/-- Without coincidences, steps that their table describes are orderly. -/
theorem Telling.orderly (telling : Telling steps before)
    (describes : Describes steps before (runAll steps before)) : Orderly steps := by
  induction steps generalizing before with
  | nil => trivial
  | cons step later ih =>
    rw [runAll_cons] at describes
    by_cases again : ∃ other ∈ later, other.key = step.key
    · have seen : ∀ dest, step.dest? = some dest → ∃ key shown,
          lastFor key later = some shown ∧ shown.Touches dest :=
        fun dest isDest => telling.touched_later again describes isDest
      refine ⟨?_, ih telling.tail ?_⟩
      · rw [if_pos again]
        intro dest isDest
        obtain ⟨key, shown, found, touches⟩ := seen dest isDest
        exact ⟨shown, (lastFor_key found).1, touches⟩
      · constructor
        · intro key shown found
          exact describes.shows key shown ((lastFor_cons_of_mem again key).trans found)
        · intro place unseen
          have untouched : ¬ step.Touches place := by
            rintro (isKey | isDest)
            · obtain ⟨shown, found, touches⟩ := exists_lastFor_of_key again
              rw [isKey] at found touches
              exact unseen place shown found touches
            · obtain ⟨key, shown, found, touches⟩ := seen place isDest
              exact unseen key shown found touches
          rw [run_of_not_touches untouched]
          refine describes.others place ?_
          intro key shown found
          rw [lastFor_cons_of_mem again] at found
          exact unseen key shown found
    · have last : ∀ other ∈ later, other.key ≠ step.key := by
        intro other mem same
        exact again ⟨other, mem, same⟩
      have shownIn := describes.shows step.key step (by
        rw [lastFor_cons_of_not_mem last, if_pos rfl])
      have keyKept := telling.key_kept last shownIn
      obtain ⟨same, apart, destKept⟩ := telling.step_kept keyKept shownIn
      refine ⟨?_, ih telling.tail ?_⟩
      · rw [if_neg again]
        refine ⟨same, apart, ?_, destKept⟩
        intro other mem isDest
        exact keyKept other mem (.inr isDest)
      · constructor
        · intro key shown found
          refine describes.shows key shown ?_
          rw [lastFor_cons_of_not_mem last, if_neg, found]
          rintro rfl
          obtain ⟨mem, isKey⟩ := lastFor_key found
          exact last shown mem isKey
        · intro place unseen
          by_cases touches : step.Touches place
          · refine runAll_of_not_touches ?_ _
            rcases touches with isKey | isDest
            · exact isKey ▸ keyKept
            · exact destKept place isDest
          · rw [run_of_not_touches touches]
            refine describes.others place ?_
            intro key shown found
            rw [lastFor_cons_of_not_mem last] at found
            split at found
            · cases found
              exact touches
            · exact unseen key shown found

end Maps

end Codex.Library.KeyedSteps
