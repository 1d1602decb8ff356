import Mathlib.Data.List.Infix

/-!
# Searching a text that arrives in pieces

A search for a needle that keeps back the end of the text where it may be the
start of the needle.  A machine searches for one needle after another; what it
reports does not depend on how the text is cut into pieces (`scan_append`).
-/

namespace Codex.Library.StreamedSearch

open List

variable {α σ : Type*} [DecidableEq α]

/-! ## The first occurrence -/

/-- The text before the first occurrence of the needle, and after it. -/
def cut (needle : List α) : List α → Option (List α × List α)
  | [] => none
  | symbol :: rest =>
    if needle <+: symbol :: rest then some ([], (symbol :: rest).drop needle.length)
    else (cut needle rest).map fun (before, after) => (symbol :: before, after)

theorem cut_eq_some {needle text before after : List α}
    (found : cut needle text = some (before, after)) : text = before ++ needle ++ after := by
  induction text generalizing before with
  | nil => cases found
  | cons symbol rest ih =>
    rw [cut] at found
    split at found
    next isPrefix =>
      cases found
      obtain ⟨tail, joined⟩ := isPrefix
      rw [← joined]
      simp
    next =>
      obtain ⟨parts, later, same⟩ := Option.map_eq_some_iff.mp found
      cases same
      simp [ih later]

variable (needle text : List α) (bound : Nat)

/-- Nothing is found if the needle starts nowhere in the text. -/
theorem cut_eq_none_iff (nonempty : needle ≠ []) : cut needle text = none ↔ ¬ needle <:+: text := by
  induction text with
  | nil => simp [cut, nonempty]
  | cons symbol rest ih =>
    rw [cut, infix_cons_iff, not_or]
    by_cases isPrefix : needle <+: symbol :: rest
    · simp [isPrefix]
    · simp [isPrefix, ih]

/-- What is found stays found when the text goes on. -/
theorem cut_append {needle text before after : List α}
    (found : cut needle text = some (before, after)) (more : List α) :
    cut needle (text ++ more) = some (before, after ++ more) := by
  induction text generalizing before with
  | nil => cases found
  | cons symbol rest ih =>
    have size : needle.length ≤ (symbol :: rest).length := by
      rw [cut_eq_some found, length_append, length_append]
      omega
    rw [cut] at found
    rw [cons_append, cut, ← cons_append]
    split at found
    next isPrefix =>
      cases found
      rw [if_pos (isPrefix.trans (prefix_append _ _)), drop_append_of_le_length size]
    next notPrefix =>
      rw [if_neg]
      · obtain ⟨parts, later, same⟩ := Option.map_eq_some_iff.mp found
        cases same
        simp [ih later]
      · intro isPrefix
        exact notPrefix (prefix_of_prefix_length_le isPrefix (prefix_append _ _) size)

/-- A part of the text where the needle does not start is passed over. -/
theorem cut_of_not_prefix {needle : List α} {front text : List α} (apart : ∀ index < front.length,
      ¬ needle <+: (front ++ text).drop index) :
    cut needle (front ++ text) = (cut needle text).map fun (before, after) =>
        (front ++ before, after) := by
  induction front with
  | nil => simp
  | cons symbol front ih =>
    have here := apart 0 (by simp)
    rw [drop_zero] at here
    rw [cons_append] at here ⊢
    rw [cut, if_neg here, ih]
    · rw [Option.map_map]
      rfl
    · intro index bound
      exact apart (index + 1) (by simpa using bound)

/-! ## What is kept back -/

/-- The greatest length up to a bound at which the text may start the needle. -/
def heldFrom (needle text : List α) : Nat → Nat
  | 0 => 0
  | bound + 1 =>
    if needle.take (bound + 1) <:+ text then bound + 1
    else heldFrom needle text bound

/--
The length of the longest end of the text that is a start of the needle but
not all of it.
-/
def held (needle text : List α) : Nat := heldFrom needle text (min text.length (needle.length - 1))

theorem heldFrom_le : heldFrom needle text bound ≤ bound := by
  induction bound with
  | zero => exact Nat.le_refl 0
  | succ bound ih =>
    rw [heldFrom]
    split
    · exact Nat.le_refl _
    · exact Nat.le_succ_of_le ih

theorem take_heldFrom : needle.take (heldFrom needle text bound) <:+ text := by
  induction bound with
  | zero => simp [heldFrom]
  | succ bound ih =>
    rw [heldFrom]
    split
    next isSuffix => exact isSuffix
    next => exact ih

theorem le_heldFrom {length : Nat}
    (small : length ≤ bound) (isSuffix : needle.take length <:+ text) :
    length ≤ heldFrom needle text bound := by
  induction bound with
  | zero => omega
  | succ bound ih =>
    rw [heldFrom]
    split
    · exact small
    next notSuffix =>
      have differs : length ≠ bound + 1 := by
        rintro rfl
        exact notSuffix isSuffix
      exact ih (by omega)

theorem held_le : held needle text ≤ text.length := (heldFrom_le _ _ _).trans (Nat.min_le_left _ _)

theorem held_lt (nonempty : needle ≠ []) : held needle text < needle.length := by
  have bound := (heldFrom_le needle text
    (min text.length (needle.length - 1))).trans (Nat.min_le_right _ _)
  have positive := length_pos_iff.mpr nonempty
  unfold held
  omega

theorem take_held : needle.take (held needle text) <:+ text := take_heldFrom _ _ _

theorem le_held {length : Nat} (proper : length < needle.length)
    (isSuffix : needle.take length <:+ text) : length ≤ held needle text := by
  refine le_heldFrom needle text _ ?_ isSuffix
  have size := isSuffix.length_le
  rw [length_take] at size
  omega

/-- The text without what is kept back. -/
def passed (needle text : List α) : List α := text.take (text.length - held needle text)

/-- What is kept back is a start of the needle. -/
theorem passed_append : passed needle text ++ needle.take (held needle text) = text := by
  obtain ⟨front, joined⟩ := take_held needle text
  by_cases empty : needle = []
  · subst empty
    simp [passed, held, heldFrom]
  have length : (needle.take (held needle text)).length = held needle text := by
    rw [length_take]
    have proper := held_lt needle text empty
    omega
  have size : text.length - held needle text = front.length := by
    rw [← joined, length_append, length]
    rw [joined]
    omega
  unfold passed
  rw [size]
  conv_lhs =>
    enter [1, 2]
    rw [← joined]
  rw [take_left, joined]

section Passing

variable {needle text : List α} (nonempty : needle ≠ [])
include nonempty

theorem not_prefix_of_passed (missing : cut needle text = none) (more : List α) :
    ∀ index < (passed needle text).length, ¬ needle <+: (text ++ more).drop index := by
  intro index bound isPrefix
  rw [cut_eq_none_iff needle text nonempty] at missing
  have size : (passed needle text).length = text.length - held needle text := by simp [passed]
  have atMost := held_le needle text
  rw [drop_append_of_le_length (by omega)] at isPrefix
  by_cases short : needle.length ≤ (text.drop index).length
  · -- The whole needle is in the text.
    have inText := prefix_of_prefix_length_le isPrefix (prefix_append _ _) short
    exact missing (inText.isInfix.trans (drop_suffix _ _).isInfix)
  · -- The end of the text starts the needle and would have been kept back.
    have isStart : text.drop index = needle.take (text.drop index).length :=
      (prefix_iff_eq_take.mp (prefix_of_prefix_length_le (prefix_append _ _) isPrefix (by omega)))
    have kept := le_held needle text (by omega) (isStart ▸ drop_suffix _ _)
    rw [length_drop] at kept
    omega

/-- Going on from what is kept back finds what the whole text has. -/
theorem cut_of_none (missing : cut needle text = none) (more : List α) :
    cut needle (text ++ more) = (cut needle (needle.take (held needle text) ++ more)).map
        fun (before, after) => (passed needle text ++ before, after) := by
  have split : text ++ more = passed needle text ++ (needle.take (held needle text) ++ more) := by
    rw [← append_assoc, passed_append]
  rw [split]
  refine cut_of_not_prefix ?_
  rw [← split]
  exact not_prefix_of_passed nonempty missing more

/-- What is kept back in the end does not depend on the pieces. -/
theorem held_of_none (more : List α) :
    held needle (text ++ more) = held needle (needle.take (held needle text) ++ more) := by
  have split : text ++ more = passed needle text ++ (needle.take (held needle text) ++ more) := by
    rw [← append_assoc, passed_append]
  have keptLength : (needle.take (held needle text)).length = held needle text := by
    rw [length_take]
    have proper := held_lt needle text nonempty
    omega
  refine Nat.le_antisymm ?_ ?_
  · -- A longer start of the needle would reach into what was passed.
    have proper := held_lt needle (text ++ more) nonempty
    refine le_held needle _ proper ?_
    have isSuffix := take_held needle (text ++ more)
    by_cases short : held needle (text ++ more) ≤ (needle.take (held needle text) ++ more).length
    · refine suffix_of_suffix_length_le isSuffix ?_ ?_
      · rw [split]
        exact suffix_append _ _
      · rw [length_take]
        omega
    · exfalso
      rw [length_append, keptLength] at short
      obtain ⟨front, joined⟩ := isSuffix
      have inside : needle.take (held needle (text ++ more) - more.length) <:+ text := by
        rw [← take_append_drop (held needle (text ++ more) - more.length)
            (needle.take (held needle (text ++ more))),
          ← append_assoc, take_take,
          Nat.min_eq_left (Nat.sub_le _ _)] at joined
        have same := (append_inj' joined (by
          rw [length_drop, length_take]
          omega)).1
        exact ⟨front, same⟩
      have kept := le_held needle text (by omega) inside
      omega
  · refine le_held needle _ (held_lt needle _ nonempty) ?_
    rw [split]
    exact (take_held needle _).trans (suffix_append _ _)

theorem passed_of_none (more : List α) : passed needle (text ++ more) = passed needle text ++
      passed needle (needle.take (held needle text) ++ more) := by
  have joined : passed needle (text ++ more) ++ needle.take (held needle (text ++ more)) =
        (passed needle text ++ passed needle (needle.take (held needle text) ++ more)) ++
          needle.take (held needle (text ++ more)) := by
    rw [passed_append, held_of_none nonempty more, append_assoc,
      passed_append, ← append_assoc, passed_append]
  exact append_cancel_right joined

end Passing

/-! ## One needle after another -/

/-- In each mode a needle is looked for; finding it leads to the next mode. -/
structure Machine (σ α : Type*) where
  needle : σ → List α
  next : σ → σ
  nonempty : ∀ mode, needle mode ≠ []

/-- A symbol passed in a mode, or the needle of a mode found. -/
inductive Event (σ α : Type*) where
  | passed (mode : σ) (symbol : α)
  | found (mode : σ)

/-- The events of a text, the mode in the end and what is kept back. -/
@[ext]
structure Scanned (σ α : Type*) where
  events : List (Event σ α)
  mode : σ
  kept : List α

namespace Machine

variable (machine : Machine σ α)

/-- Scan a text, finding at most `fuel` needles. -/
def scan : Nat → σ → List α → Scanned σ α
  | 0, mode, text => ⟨[], mode, text⟩
  | fuel + 1, mode, text =>
    match cut (machine.needle mode) text with
    | some (before, after) =>
      let rest := scan fuel (machine.next mode) after
      ⟨before.map (.passed mode) ++ .found mode :: rest.events, rest.mode, rest.kept⟩
    | none =>
      ⟨(passed (machine.needle mode) text).map (.passed mode), mode,
        (machine.needle mode).take (held (machine.needle mode) text)⟩

theorem scan_of_some {mode : σ} {text before after : List α}
    (found : cut (machine.needle mode) text = some (before, after)) (fuel : Nat) :
    machine.scan (fuel + 1) mode text =
      let rest := machine.scan fuel (machine.next mode) after
      ⟨before.map (.passed mode) ++ .found mode :: rest.events, rest.mode, rest.kept⟩ := by
  simp only [scan, found]

theorem scan_of_none {mode : σ} {text : List α}
    (missing : cut (machine.needle mode) text = none) (fuel : Nat) :
    machine.scan (fuel + 1) mode text =
      ⟨(passed (machine.needle mode) text).map (.passed mode), mode,
        (machine.needle mode).take (held (machine.needle mode) text)⟩ := by
  simp only [scan, missing]

theorem length_after_lt {mode : σ} {text before after : List α}
    (found : cut (machine.needle mode) text = some (before, after)) :
    after.length < text.length := by
  have positive := length_pos_iff.mpr (machine.nonempty mode)
  rw [cut_eq_some found, length_append, length_append]
  omega

variable (mode : σ)

theorem scan_fuel (text : List α) (fuel other : Nat)
    (enough : text.length < fuel) (alsoEnough : text.length < other) :
    machine.scan fuel mode text = machine.scan other mode text := by
  induction fuel generalizing mode text other with
  | zero => omega
  | succ fuel ih =>
    cases other with
    | zero => omega
    | succ other =>
      cases outcome : cut (machine.needle mode) text with
      | none => rw [scan_of_none machine outcome, scan_of_none machine outcome]
      | some parts =>
        have shorter := machine.length_after_lt outcome
        rw [scan_of_some machine outcome, scan_of_some machine outcome,
          ih _ _ other (by omega) (by omega)]

theorem length_kept_le (fuel : Nat) (mode : σ) (text : List α) :
    (machine.scan fuel mode text).kept.length ≤ text.length := by
  induction fuel generalizing mode text with
  | zero => exact Nat.le_refl _
  | succ fuel ih =>
    cases outcome : cut (machine.needle mode) text with
    | none =>
      rw [scan_of_none machine outcome]
      exact (take_held _ text).length_le
    | some parts =>
      have shorter := machine.length_after_lt outcome
      rw [scan_of_some machine outcome]
      exact (ih _ _).trans (Nat.le_of_lt shorter)

/-- Scanning a text in two pieces is scanning it whole. -/
theorem scan_append (text more : List α) {fuel : Nat} (enough : (text ++ more).length < fuel) :
    machine.scan fuel mode (text ++ more) =
      let first := machine.scan fuel mode text
      let second := machine.scan fuel first.mode (first.kept ++ more)
      ⟨first.events ++ second.events, second.mode, second.kept⟩ := by
  induction fuel generalizing mode text with
  | zero => omega
  | succ fuel ih =>
    cases outcome : cut (machine.needle mode) text with
    | some parts =>
      obtain ⟨before, after⟩ := parts
      have shorter := machine.length_after_lt outcome
      have bound : (after ++ more).length < fuel := by
        rw [length_append] at enough ⊢
        omega
      rw [scan_of_some machine outcome, scan_of_some machine (cut_append outcome more),
        ih _ _ bound]
      have keptBound := machine.length_kept_le fuel (machine.next mode) after
      have sameFuel := machine.scan_fuel (machine.scan fuel (machine.next mode) after).mode
        ((machine.scan fuel (machine.next mode) after).kept ++ more)
        (fuel + 1) fuel (by rw [length_append] at *; omega)
        (by rw [length_append] at *; omega)
      simp only [sameFuel, append_assoc, cons_append]
    | none =>
      have nonempty := machine.nonempty mode
      have whole := cut_of_none nonempty outcome more
      rw [scan_of_none machine outcome]
      cases later : cut (machine.needle mode) ((machine.needle mode).take
            (held (machine.needle mode) text) ++ more) with
      | none =>
        rw [later] at whole
        rw [scan_of_none machine whole]
        simp only [scan_of_none machine later]
        rw [passed_of_none nonempty more, held_of_none nonempty more, map_append]
      | some parts =>
        rw [later] at whole
        rw [scan_of_some machine whole]
        simp only [scan_of_some machine later, map_append, append_assoc]

/-! ## Pieces -/

def scanAll (text : List α) : Scanned σ α := machine.scan (text.length + 1) mode text

theorem scanAll_append (text more : List α) : machine.scanAll mode (text ++ more) =
      let first := machine.scanAll mode text
      let second := machine.scanAll first.mode (first.kept ++ more)
      ⟨first.events ++ second.events, second.mode, second.kept⟩ := by
  have whole := machine.scan_append mode text more (Nat.lt_succ_self _)
  have first := machine.scan_fuel mode text ((text ++ more).length + 1)
    (text.length + 1) (by rw [length_append]; omega)
    (Nat.lt_succ_self _)
  have keptBound := machine.length_kept_le (text.length + 1) mode text
  simp only [first] at whole
  have second := machine.scan_fuel (machine.scan (text.length + 1) mode text).mode
    ((machine.scan (text.length + 1) mode text).kept ++ more)
    ((text ++ more).length + 1)
    (((machine.scan (text.length + 1) mode text).kept ++ more).length + 1)
    (by rw [length_append, length_append]; omega)
    (Nat.lt_succ_self _)
  rw [second] at whole
  exact whole

theorem scanAll_kept (mode : σ) (text : List α) :
    let scanned := machine.scanAll mode text
    machine.scanAll scanned.mode scanned.kept = ⟨[], scanned.mode, scanned.kept⟩ := by
  intro scanned
  have again := machine.scanAll_append mode text []
  rw [append_nil] at again
  simp only [append_nil] at again
  have events := congrArg Scanned.events again
  have modes := congrArg Scanned.mode again
  have kepts := congrArg Scanned.kept again
  rw [self_eq_append_right] at events
  exact Scanned.ext events modes.symm kepts.symm

/-- Scan the pieces of a text one by one, where `kept` has been kept back. -/
def feed (mode : σ) (kept : List α) : List (List α) → Scanned σ α
  | [] => ⟨[], mode, kept⟩
  | piece :: pieces =>
    let first := machine.scanAll mode (kept ++ piece)
    let rest := feed first.mode first.kept pieces
    ⟨first.events ++ rest.events, rest.mode, rest.kept⟩

/-- The pieces of a text give what the text gives. -/
theorem feed_eq_scanAll (kept : List α) (pieces : List (List α))
    (settled : machine.scanAll mode kept = ⟨[], mode, kept⟩) :
    machine.feed mode kept pieces = machine.scanAll mode (kept ++ pieces.flatten) := by
  induction pieces generalizing mode kept with
  | nil => rw [flatten_nil, append_nil, settled, feed]
  | cons piece pieces ih =>
    rw [flatten_cons, ← append_assoc, machine.scanAll_append mode (kept ++ piece), feed,
      ih _ _ (machine.scanAll_kept mode (kept ++ piece))]

end Machine

end Codex.Library.StreamedSearch
