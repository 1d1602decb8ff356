import Codex.Context.TextTruncation

/-!
# What truncation keeps

Cutting the middle of a text keeps the longest beginning and the longest end
that fit their halves of the budget, and prints the number of characters
between them.  Truncating the items of a tool output keeps every item that is
no text, cuts at most one text and counts the texts that are missing.
-/

namespace Codex.Context.HonestTruncation

open Rust.Text Protocol.Models TextTruncation List
open String (utf8Len utf8Len_nil utf8Len_cons utf8Len_append utf8ByteSize_ofList)

/-! ## Sizes -/

theorem length_le_utf8Len (chars : List Char) : chars.length ≤ utf8Len chars := by
  induction chars with
  | nil => exact le_refl _
  | cons char rest ih =>
    have positive := char.utf8Size_pos
    simp only [length_cons, utf8Len_cons]
    omega

theorem split_at_size (front rest : List Char) : takeBytes (utf8Len front) (front ++ rest) = front ∧
      dropBytes (utf8Len front) (front ++ rest) = rest := by
  induction front with
  | nil =>
    cases rest with
    | nil => exact ⟨rfl, rfl⟩
    | cons char rest => simp [takeBytes, dropBytes, Nat.not_le_of_lt char.utf8Size_pos]
  | cons char front ih => simp [takeBytes, dropBytes, ih]

/-! ## The middle of a text -/

variable {beginning target total : Nat} {read front middle back : List Char} {state : SplitState}

/-- How the characters read so far are split into the three parts. -/
structure Splits (beginning target total : Nat) (read front middle back : List Char)
    (state : SplitState) : Prop where
  whole : read = front ++ middle ++ back
  index : state.index = utf8Len read
  frontEnd : state.prefixEnd = utf8Len front
  removed : state.removedChars = middle.length
  fits : utf8Len front ≤ beginning
  full : ∀ char ∈ (middle ++ back).head?, beginning < utf8Len front + char.utf8Size
  started : state.suffixStarted = !back.isEmpty
  backStart : state.suffixStart = if back.isEmpty then total else utf8Len (front ++ middle)
  below : ∀ rest char, middle = rest ++ [char] → utf8Len (front ++ rest) < target
  reached : back ≠ [] → target ≤ utf8Len (front ++ middle)

theorem Splits.start (beginning target total : Nat) :
    Splits beginning target total [] [] [] [] ⟨0, 0, total, 0, false⟩ :=
  ⟨rfl, rfl, rfl, rfl, Nat.zero_le _, by simp, rfl, rfl, by simp, by simp⟩

variable (splits : Splits beginning target total read front middle back state)

include splits in
theorem Splits.step (few : read.length < usizeMax) (char : Char) :
    ∃ front middle back, Splits beginning target total (read ++ [char]) front middle back
      (splitStep beginning target state char) := by
  obtain ⟨rfl, index, frontEnd, removed, fits, full, started, backStart, below, reached⟩ := splits
  have size_read := utf8Len_append (front ++ middle ++ back) [char]
  simp only [utf8Len_cons, utf8Len_nil, Nat.zero_add] at size_read
  unfold splitStep
  simp only [index, ← size_read]
  by_cases early : utf8Len (front ++ middle ++ back ++ [char]) ≤ beginning
  · -- A character was left out before only if it did not fit.
    obtain ⟨rfl, rfl⟩ : middle = [] ∧ back = [] := by
      rw [← append_eq_nil_iff]
      by_contra nonempty
      obtain ⟨first, rest, shape⟩ := exists_cons_of_ne_nil nonempty
      have tooLong := full first (by simp [shape])
      rw [append_assoc front, shape] at early
      simp only [utf8Len_append, utf8Len_cons] at early
      omega
    rw [if_pos early]
    exact ⟨front ++ [char], [], [], by simp, rfl, by simp, removed,
      by simpa using early, by simp, started, backStart, by simp, by simp⟩
  · have grown : ∀ first ∈ (middle ++ back ++ [char]).head?,
        beginning < utf8Len front + first.utf8Size := by
      cases shape : middle ++ back with
      | nil =>
        rintro _ ⟨⟩
        rw [append_assoc front, shape] at early
        simpa using early
      | cons head tail =>
        rintro _ ⟨⟩
        exact full head (by simp [shape])
    rw [if_neg early]
    split_ifs with late begun
    · have nonempty : back ≠ [] := by
        rintro rfl
        rw [begun] at started
        cases started
      exact ⟨front, middle, back ++ [char], by simp, rfl, frontEnd, removed, fits,
        by rwa [← append_assoc], by simp [begun], by simpa [nonempty] using backStart, below,
        fun _ => reached nonempty⟩
    · obtain rfl : back = [] := by
        rw [started] at begun
        simpa using begun
      rw [append_nil] at grown late
      exact ⟨front, middle, [char], by simp, rfl, frontEnd, removed, fits, grown,
        rfl, by simp, below, fun _ => late⟩
    · obtain rfl : back = [] := by
        by_contra nonempty
        have begun := reached nonempty
        rw [utf8Len_append] at late
        omega
      rw [append_nil] at grown late few
      rw [length_append] at few
      refine ⟨front, middle ++ [char], [], by simp, rfl, frontEnd, ?_, fits,
        by rwa [append_nil], started, backStart, ?_, by simp⟩
      · rw [removed, length_append, length_singleton]
        exact Nat.min_eq_left (by omega)
      · intro rest last shape
        obtain ⟨rfl, -⟩ := append_inj' shape rfl
        exact Nat.lt_of_not_le late

include splits in
theorem Splits.run (unread : List Char) (few : (read ++ unread).length ≤ usizeMax) :
    ∃ front middle back, Splits beginning target total (read ++ unread) front middle back
      (unread.foldl (splitStep beginning target) state) := by
  induction unread generalizing read front middle back state with
  | nil => exact ⟨front, middle, back, by simpa using splits⟩
  | cons char unread ih =>
    have room : read.length < usizeMax := by
      refine Nat.lt_of_lt_of_le ?_ few
      simp
    obtain ⟨front, middle, back, next⟩ := splits.step room char
    rw [append_cons] at few ⊢
    exact ih next few

variable {text : String} {maxBytes : Nat}

/-- The longest beginning, the longest end, and the number of characters between them. -/
def CutsMiddle (text : String) (maxBytes : Nat) : Prop :=
  ∃ front middle back : String, text = front ++ middle ++ back ∧
    truncateMiddleChars text maxBytes =
      front ++ formatTruncationMarker false middle.length ++ back ∧
    front.utf8ByteSize ≤ maxBytes / 2 ∧
    (∀ longer rest, text = longer ++ rest → longer.utf8ByteSize ≤ maxBytes / 2 →
      longer.utf8ByteSize ≤ front.utf8ByteSize) ∧
    back.utf8ByteSize ≤ maxBytes - maxBytes / 2 ∧
    ∀ rest longer, text = rest ++ longer → longer.utf8ByteSize ≤ maxBytes - maxBytes / 2 →
      longer.utf8ByteSize ≤ back.utf8ByteSize

theorem utf8Len_toList (text : String) : utf8Len text.toList = text.utf8ByteSize := by
  rw [← utf8ByteSize_ofList, String.ofList_toList]

theorem Splits.splitString_eq {endBytes : Nat}
    (splits : Splits beginning target text.utf8ByteSize text.toList front middle back
      (text.toList.foldl (splitStep beginning target) ⟨0, 0, text.utf8ByteSize, 0, false⟩))
    (isTarget : target = text.utf8ByteSize - endBytes) :
    splitString text beginning endBytes =
      (middle.length, String.ofList front, String.ofList back) := by
  have total := congrArg utf8Len splits.whole
  rw [utf8Len_toList] at total
  have backStart : max (text.toList.foldl (splitStep beginning target)
      ⟨0, 0, text.utf8ByteSize, 0, false⟩).suffixStart (utf8Len front) =
          utf8Len (front ++ middle) := by
    rw [splits.backStart]
    split_ifs with empty
    · rw [List.isEmpty_iff.mp empty, append_nil] at total
      rw [total, max_eq_left (by simp)]
    · exact max_eq_left (by simp)
  have taken := (split_at_size front (middle ++ back)).1
  have dropped := (split_at_size (front ++ middle) back).2
  rw [← append_assoc, ← splits.whole] at taken
  rw [← splits.whole] at dropped
  subst isTarget
  simp only [splitString, splits.removed, splits.frontEnd, taken, backStart, dropped]

include splits in
theorem Splits.size_le_front
    {longer rest : List Char} (same : read = longer ++ rest) (small : utf8Len longer ≤ beginning) :
    utf8Len longer ≤ utf8Len front := by
  rw [splits.whole, append_assoc] at same
  rcases append_eq_append_iff.mp same with ⟨extra, rfl, others⟩ | ⟨extra, rfl, -⟩
  · cases extra with
    | nil => simp
    | cons char extra =>
      have tooLong := splits.full char (by simp [others])
      simp only [utf8Len_append, utf8Len_cons] at small
      omega
  · simp

include splits in
theorem Splits.size_le_back
    (apart : beginning < target) {rest longer : List Char} (same : read = rest ++ longer)
    (late : target ≤ utf8Len rest) : utf8Len longer ≤ utf8Len back := by
  rw [splits.whole] at same
  rcases append_eq_append_iff.mp same with ⟨extra, -, rfl⟩ | ⟨extra, kept, rfl⟩
  · simp
  · rcases eq_nil_or_concat' extra with rfl | ⟨extra, last, rfl⟩
    · simp
    · -- The beginning ends before the target, and so does what precedes the last removed character.
      rcases eq_nil_or_concat' middle with rfl | ⟨others, char, rfl⟩
      · have ends := splits.fits
        have sizes := congrArg utf8Len kept
        simp only [utf8Len_append, utf8Len_nil] at sizes
        omega
      · have early := splits.below others char rfl
        rw [← append_assoc, ← append_assoc] at kept
        have sizes := congrArg utf8Len (append_inj' kept rfl).1
        simp only [utf8Len_append] at sizes early
        omega

/-- A long text is replaced by its two ends around the marker. -/
theorem exists_splits (useTokens : Bool) (positive : 0 < maxBytes)
    (long : maxBytes < text.utf8ByteSize) (bounded : text.utf8ByteSize ≤ usizeMax) :
    ∃ front middle back state, Splits (maxBytes / 2)
        (text.utf8ByteSize - (maxBytes - maxBytes / 2)) text.utf8ByteSize text.toList front middle
        back state ∧
      truncateWithByteEstimate text maxBytes useTokens = String.ofList front ++
        formatTruncationMarker useTokens
          (removedUnits useTokens (text.utf8ByteSize - maxBytes) middle.length) ++
        String.ofList back := by
  have fewer := length_le_utf8Len text.toList
  rw [utf8Len_toList] at fewer
  obtain ⟨front, middle, back, splits⟩ := (Splits.start (maxBytes / 2)
    (text.utf8ByteSize - (maxBytes - maxBytes / 2)) text.utf8ByteSize).run text.toList
    (fewer.trans bounded)
  rw [nil_append] at splits
  have nonempty : text.isEmpty = false := by
    rw [String.isEmpty_eq_false_iff]
    rintro rfl
    exact absurd long (Nat.not_lt_zero _)
  refine ⟨front, middle, back, _, splits, ?_⟩
  simp only [truncateWithByteEstimate, nonempty, Bool.false_eq_true, if_false,
    if_neg positive.ne', if_neg (Nat.not_le_of_lt long), splits.splitString_eq rfl]

theorem cutsMiddle (positive : 0 < maxBytes) (long : maxBytes < text.utf8ByteSize)
    (bounded : text.utf8ByteSize ≤ usizeMax) : CutsMiddle text maxBytes := by
  obtain ⟨front, middle, back, state, splits, cut⟩ := exists_splits false positive long bounded
  have total := congrArg utf8Len splits.whole
  simp only [utf8Len_toList, utf8Len_append] at total
  refine ⟨String.ofList front, String.ofList middle, String.ofList back,
    String.toList_inj.mp (by simpa using splits.whole), ?_⟩
  simp only [utf8ByteSize_ofList]
  refine ⟨?_, splits.fits, ?_, ?_, ?_⟩
  · simpa only [truncateMiddleChars, removedUnits, Bool.false_eq_true, if_false,
      String.length_ofList] using cut
  · intro longer rest same small
    rw [← utf8Len_toList] at small ⊢
    exact splits.size_le_front (by rw [same, String.toList_append]) small
  · by_cases empty : back = []
    · simp [empty]
    · have late := splits.reached empty
      rw [utf8Len_append] at late
      omega
  · intro rest longer same small
    have sizes := congrArg String.utf8ByteSize same
    rw [String.utf8ByteSize_append] at sizes
    rw [← utf8Len_toList] at small ⊢
    refine splits.size_le_back (by omega) (same ▸ String.toList_append) ?_
    rw [utf8Len_toList] at small ⊢
    omega

/-! ## The items of a tool output -/

/-- What becomes of an item. -/
inductive Fate where
  | kept
  | cut (limit : Nat)
  | omitted
deriving DecidableEq

variable (policy : TruncationPolicy)

def emitted : FunctionCallOutputContentItem × Fate → Option FunctionCallOutputContentItem
  | (item, .kept) => some item
  | (.inputText text, .cut limit) => some (.inputText (truncateText text (policy.withLimit limit)))
  | _ => none

/-- What the texts that are kept cost. -/
def spent : List (FunctionCallOutputContentItem × Fate) → Nat
  | [] => 0
  | (.inputText text, .kept) :: rest => policy.cost text + spent rest
  | _ :: rest => spent rest

def isCut : FunctionCallOutputContentItem × Fate → Bool
  | (_, .cut _) => true
  | _ => false

def isOmitted (entry : FunctionCallOutputContentItem × Fate) : Bool := entry.2 == .omitted

def isText : FunctionCallOutputContentItem → Bool
  | .inputText _ => true
  | _ => false

/-- How a loop over items leads from one state to another. -/
structure Accounts (fated : List (FunctionCallOutputContentItem × Fate))
    (state final : OutputItemsState) : Prop where
  out : final.out = state.out ++ fated.filterMap (emitted policy)
  omitted : final.omittedTextItems = state.omittedTextItems + fated.countP isOmitted
  budget : spent policy fated ≤ state.remainingBudget
  cuts : fated.countP isCut ≤ min 1 state.remainingBudget
  /-- A cut text gets what the texts kept before it leave. -/
  limits : ∀ front item limit rest, fated = front ++ (item, .cut limit) :: rest →
    spent policy front + limit = state.remainingBudget
  texts : ∀ entry ∈ fated, entry.2 = .kept ∨ isText entry.1 = true

theorem Accounts.step {fated : List (FunctionCallOutputContentItem × Fate)}
    (item : FunctionCallOutputContentItem) {state final : OutputItemsState}
    (accounts : Accounts policy fated (truncateOutputItem policy state item) final) :
    ∃ fate, Accounts policy ((item, fate) :: fated) state final := by
  obtain ⟨out, omitted, budget, cuts, limits, texts⟩ := accounts
  have uncut : (truncateOutputItem policy state item).remainingBudget = 0 →
      ∀ front other limit rest, fated ≠ front ++ (other, .cut limit) :: rest := by
    rintro used front other limit rest rfl
    rw [used, min_zero, countP_append, countP_cons_of_pos rfl] at cuts
    omega
  cases item with
  | inputText text =>
    have texts : ∀ fate, ∀ entry ∈ (.inputText text, fate) :: fated,
        entry.2 = .kept ∨ isText entry.1 = true :=
      fun fate => forall_mem_cons.mpr ⟨Or.inr rfl, texts⟩
    simp only [truncateOutputItem] at out omitted budget cuts limits uncut
    split_ifs at out omitted budget cuts limits uncut with spentAll fits empty
    · refine ⟨.omitted, out, ?_, budget, cuts, ?_, texts _⟩
      · simpa [isOmitted, Nat.add_assoc, Nat.add_comm 1] using omitted
      · rintro (_ | ⟨first, front⟩) other limit rest split <;> cases split
        exact limits front other limit rest rfl
    · refine ⟨.kept, by simpa [emitted] using out, by simpa [isOmitted] using omitted, ?_, ?_, ?_,
        texts _⟩
      · simp only [spent] at budget ⊢
        omega
      · refine le_trans (by simpa [isCut] using cuts) (min_le_min_left 1 (Nat.sub_le _ _))
      · rintro (_ | ⟨first, front⟩) other limit rest split <;> cases split
        have rest := limits front other limit rest rfl
        simp only [spent] at rest ⊢
        omega
    · refine ⟨.omitted, out, ?_, le_trans budget (Nat.zero_le _), ?_, ?_, texts _⟩
      · simpa [isOmitted, Nat.add_assoc, Nat.add_comm 1] using omitted
      · exact le_trans (by simpa [isCut] using cuts) (Nat.zero_le _)
      · rintro (_ | ⟨first, front⟩) other limit rest split <;> cases split
        exact absurd rfl (uncut rfl front other limit rest)
    · refine ⟨.cut state.remainingBudget, by simpa [emitted] using out,
        by simpa [isOmitted] using omitted, le_trans budget (Nat.zero_le _), ?_, ?_, texts _⟩
      · rw [countP_cons_of_pos rfl]
        rw [min_zero] at cuts
        omega
      · rintro (_ | ⟨first, front⟩) other limit rest split <;> cases split
        · exact Nat.zero_add _
        · exact absurd rfl (uncut rfl front other limit rest)
  | _ =>
    refine ⟨.kept, by simpa [truncateOutputItem, emitted] using out, omitted, budget, cuts, ?_,
      forall_mem_cons.mpr ⟨Or.inl rfl, texts⟩⟩
    rintro (_ | ⟨first, front⟩) other limit rest split <;> cases split
    exact limits front other limit rest rfl

variable (items : List FunctionCallOutputContentItem)

theorem exists_accounts (state : OutputItemsState) : ∃ fated, fated.map Prod.fst = items ∧
      Accounts policy fated state (items.foldl (truncateOutputItem policy) state) := by
  induction items generalizing state with
  | nil => exact ⟨[], rfl, by simp, by simp, Nat.zero_le _, by simp, by simp, by simp⟩
  | cons item items ih =>
    obtain ⟨fated, listed, accounts⟩ := ih (truncateOutputItem policy state item)
    obtain ⟨fate, accounts⟩ := accounts.step
    exact ⟨(item, fate) :: fated, by rw [map_cons, listed], accounts⟩

/--
Every item has its fate: what is no text is kept, at most one text is cut, to
what the texts kept before it leave of the limit, the texts that are kept fit
the limit, and a note counts the texts left out.
-/
def KeepsItems (items : List FunctionCallOutputContentItem) : Prop :=
  ∃ fated : List (FunctionCallOutputContentItem × Fate), fated.map Prod.fst = items ∧
    truncateFunctionOutputItemsWithPolicy items policy = fated.filterMap (emitted policy) ++
      (if fated.countP isOmitted = 0 then [] else
        [.inputText ("[omitted " ++ toString (fated.countP isOmitted) ++ " text items ...]")]) ∧
    (∀ entry ∈ fated, entry.2 = .kept ∨ isText entry.1 = true) ∧
    fated.countP isCut ≤ 1 ∧ spent policy fated ≤ policy.limit ∧
    ∀ front item limit rest, fated = front ++ (item, .cut limit) :: rest →
      spent policy front + limit = policy.limit

theorem keepsItems : KeepsItems policy items := by
  obtain ⟨fated, listed, out, omitted, budget, cuts, limits, texts⟩ :=
    exists_accounts policy items ⟨[], policy.limit, 0⟩
  refine ⟨fated, listed, ?_, texts, cuts.trans (min_le_left _ _), budget, limits⟩
  rw [truncateFunctionOutputItemsWithPolicy]
  simp only [out, omitted, nil_append, Nat.zero_add, Nat.pos_iff_ne_zero]
  split_ifs <;> simp_all

end Codex.Context.HonestTruncation
