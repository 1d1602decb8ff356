import Codex.Context.PromptHistory

/-!
# Trimming and rewriting the history

The model of `ContextManager::remove_first_item` and `remove_last_item`, which
take the counterpart of a tool call or output along with it, and of whole runs
of the operations of `context_manager/history.rs`.
-/

namespace Codex.Context.HistoryRewrites

open Rust.Text Protocol.Models ContextHistory PromptHistory List

/-! ## Taking an item with its counterpart -/

variable (items : List ResponseItem)

def removeFirstMatching (predicate : ResponseItem → Bool) : List ResponseItem :=
  items.eraseP predicate

def isFunctionCall (callId : String) : ResponseItem → Bool
  | .functionCall _ _ _ _ existing => existing == callId
  | _ => false

def isLocalShellCall (callId : String) : ResponseItem → Bool
  | .localShellCall _ (some existing) _ _ => existing == callId
  | _ => false

variable (key : AnswerKind × String) (item : ResponseItem)

def asksFor : Bool := callKey item == some key

def answersTo : Bool := outputKey item == some key

def removeCorrespondingFor : ResponseItem → List ResponseItem
  | .functionCall _ _ _ _ callId => removeFirstMatching items (answersTo (.function, callId))
  | .functionCallOutput callId _ =>
    if items.any (isFunctionCall callId) then removeFirstMatching items (isFunctionCall callId)
    else removeFirstMatching items (isLocalShellCall callId)
  | .toolSearchCall _ (some callId) _ _ _ =>
    removeFirstMatching items (answersTo (.toolSearch, callId))
  | .toolSearchOutput (some callId) _ _ _ =>
    removeFirstMatching items (asksFor (.toolSearch, callId))
  | .customToolCall _ _ callId _ _ => removeFirstMatching items (answersTo (.custom, callId))
  | .customToolCallOutput callId _ _ => removeFirstMatching items (asksFor (.custom, callId))
  | .localShellCall _ (some callId) _ _ => removeFirstMatching items (answersTo (.function, callId))
  | _ => items

inductive HistoryEnd where
  | first
  | last
deriving DecidableEq

/-- `remove_first_item` and `remove_last_item`; only the second counts as a rewrite. -/
def removeItem (history : ContextManager) : HistoryEnd → ContextManager
  | .first =>
    match history.items with
    | [] => history
    | removed :: rest => { history with items := removeCorrespondingFor rest removed }
  | .last =>
    match history.items.getLast? with
    | none => history
    | some removed => history.replace (removeCorrespondingFor history.items.dropLast removed)

/-- A history with an item at one of its ends. -/
def withItemAt (item : ResponseItem) (rest : List ResponseItem) : HistoryEnd → List ResponseItem
  | .first => item :: rest
  | .last => rest ++ [item]

/-- A call and its output, in either order. -/
def Partners (item partner : ResponseItem) : Prop :=
  ∃ key, callKey item = some key ∧ outputKey partner = some key ∨
    outputKey item = some key ∧ callKey partner = some key

/--
Call ids are unique, the outputs answer exactly the calls, once each, and none
stands before its call.
-/
structure Paired (items : List ResponseItem) : Prop where
  unique : ((items.filterMap callKey).map Prod.snd).Nodup
  answered : (items.filterMap outputKey).Perm (items.filterMap callKey)
  ordered : items.Pairwise fun earlier later => ∀ key,
    outputKey earlier = some key → callKey later ≠ some key

variable {item : ResponseItem} {key : AnswerKind × String}

theorem callKey_of_outputKey (output : outputKey item = some key) : callKey item = none := by
  cases item <;> first | rfl | exact nomatch output

/--
An item goes alone if it is neither call nor output, and else together with
one counterpart; all other items stay.
-/
def TakesAlong (item : ResponseItem) (rest left : List ResponseItem) : Prop :=
  callKey item = none ∧ outputKey item = none ∧ left = rest ∨
    ∃ partner front back, Partners item partner ∧ rest = front ++ partner :: back ∧
      left = front ++ back

variable {rest : List ResponseItem}

theorem takesAlong_of_any {predicate : ResponseItem → Bool} (found : rest.any predicate = true)
    (partners : ∀ partner, predicate partner = true → Partners item partner) :
    TakesAlong item rest (removeFirstMatching rest predicate) := by
  obtain ⟨witness, mem, holds⟩ := any_eq_true.mp found
  obtain ⟨partner, front, back, -, isPartner, split, left⟩ := exists_of_eraseP mem holds
  exact .inr ⟨partner, front, back, partners partner isPartner, split, left⟩

section Counterpart

variable {item : ResponseItem} {rest : List ResponseItem} {key : AnswerKind × String}

theorem takesAlong_output (call : callKey item = some key) (answered : Answers rest key) :
    TakesAlong item rest (removeFirstMatching rest (answersTo key)) := by
  refine takesAlong_of_any ?_ fun partner isOutput => ⟨key, .inl ⟨call, by
    simpa [answersTo] using isOutput⟩⟩
  simpa [answersTo, Answers] using answered

theorem takesAlong_call (output : outputKey item = some key) (asked : Asks rest key) :
    TakesAlong item rest (removeFirstMatching rest (asksFor key)) := by
  refine takesAlong_of_any ?_ fun partner isCall => ⟨key, .inr ⟨output, by
    simpa [asksFor] using isCall⟩⟩
  simpa [asksFor, Asks] using asked

theorem callKey_eq_function_iff {callId : String} : callKey item = some (.function, callId) ↔
    isFunctionCall callId item = true ∨ isLocalShellCall callId item = true := by
  cases item
  case localShellCall _ found _ _ =>
    cases found <;> simp [callKey, isFunctionCall, isLocalShellCall]
  case toolSearchCall _ found _ _ _ =>
    cases found <;> simp [callKey, isFunctionCall, isLocalShellCall]
  all_goals simp [callKey, isFunctionCall, isLocalShellCall]

end Counterpart

theorem removeCorrespondingFor_takesAlong
    (answered : ∀ key, callKey item = some key → Answers rest key)
    (asked : ∀ key, outputKey item = some key → Asks rest key) :
    TakesAlong item rest (removeCorrespondingFor rest item) := by
  cases item
  case functionCall => exact takesAlong_output rfl (answered _ rfl)
  case customToolCall => exact takesAlong_output rfl (answered _ rfl)
  case customToolCallOutput => exact takesAlong_call rfl (asked _ rfl)
  case localShellCall _ callId _ _ =>
    cases callId with
    | none => exact .inl ⟨rfl, rfl, rfl⟩
    | some => exact takesAlong_output rfl (answered _ rfl)
  case toolSearchCall _ callId _ _ _ =>
    cases callId with
    | none => exact .inl ⟨rfl, rfl, rfl⟩
    | some => exact takesAlong_output rfl (answered _ rfl)
  case toolSearchOutput callId _ _ _ =>
    cases callId with
    | none => exact .inl ⟨rfl, rfl, rfl⟩
    | some => exact takesAlong_call rfl (asked _ rfl)
  case functionCallOutput callId output =>
    obtain ⟨call, mem, isCall⟩ := asked (.function, callId) rfl
    have partners : ∀ {call}, callKey call = some (.function, callId) →
        Partners (.functionCallOutput callId output) call := fun isCall => ⟨_, .inr ⟨rfl, isCall⟩⟩
    rw [removeCorrespondingFor]
    split
    case isTrue found =>
      exact takesAlong_of_any found fun call matching =>
        partners (callKey_eq_function_iff.mpr (.inl matching))
    case isFalse missing =>
      have found := (callKey_eq_function_iff.mp isCall).resolve_left fun matching =>
        missing (any_eq_true.mpr ⟨call, mem, matching⟩)
      exact takesAlong_of_any (any_eq_true.mpr ⟨call, mem, found⟩) fun call matching =>
        partners (callKey_eq_function_iff.mpr (.inr matching))
  all_goals exact .inl ⟨rfl, rfl, rfl⟩

/-! ## Pairs stay whole -/

section Pairs

variable {items rest left : List ResponseItem} {item : ResponseItem}

theorem answered_of_pair {call output : ResponseItem}
    (isCall : callKey call = some key) (isOutput : outputKey output = some key)
    (split : items.Perm (call :: output :: left))
    (answered : (items.filterMap outputKey).Perm (items.filterMap callKey)) :
    (left.filterMap outputKey).Perm (left.filterMap callKey) := by
  have outputs := split.filterMap outputKey
  have calls := split.filterMap callKey
  have notOutput : outputKey call = none := by
    by_contra keyed
    obtain ⟨other, isOther⟩ := Option.ne_none_iff_exists'.mp keyed
    rw [callKey_of_outputKey isOther] at isCall
    exact nomatch isCall
  simp only [filterMap_cons, notOutput, isOutput] at outputs
  simp only [filterMap_cons, isCall, callKey_of_outputKey isOutput] at calls
  exact (outputs.symm.trans (answered.trans calls)).cons_inv

/-- Taking an item of a paired list together with its counterpart leaves a paired list. -/
theorem paired_of_takesAlong (paired : Paired items) (isRest : items.Perm (item :: rest))
    (shorter : rest.Sublist items) (taken : TakesAlong item rest left) :
    Paired left ∧ left.Sublist items := by
  have kept : left.Sublist items ∧ (left.filterMap outputKey).Perm (left.filterMap callKey) := by
    rcases taken with ⟨notCall, notOutput, rfl⟩ | ⟨partner, front, back, partners, rfl, rfl⟩
    · refine ⟨shorter, ?_⟩
      simpa [notCall, notOutput] using ((isRest.filterMap outputKey).symm.trans
        (paired.answered.trans (isRest.filterMap callKey)))
    · have both : items.Perm (item :: partner :: (front ++ back)) :=
        isRest.trans (perm_middle.cons item)
      refine ⟨((Sublist.refl _).middle partner).trans shorter, ?_⟩
      obtain ⟨key, ⟨isCall, isOutput⟩ | ⟨isOutput, isCall⟩⟩ := partners
      · exact answered_of_pair isCall isOutput both paired.answered
      · exact answered_of_pair isCall isOutput (both.trans (.swap _ _ _)) paired.answered
  obtain ⟨sublist, answered⟩ := kept
  exact ⟨⟨paired.unique.sublist ((sublist.filterMap callKey).map _), answered,
    paired.ordered.sublist sublist⟩, sublist⟩

theorem takesAlong_of_paired (paired : Paired items) (isRest : items.Perm (item :: rest)) :
    TakesAlong item rest (removeCorrespondingFor rest item) := by
  have keys := fun key => paired.answered.mem_iff (a := key)
  simp only [mem_filterMap, isRest.mem_iff, mem_cons, exists_eq_or_imp] at keys
  refine removeCorrespondingFor_takesAlong (fun key isCall => ?_) fun key isOutput => ?_
  · refine ((keys key).mpr (.inl isCall)).resolve_left fun isOutput => ?_
    rw [callKey_of_outputKey isOutput] at isCall
    exact nomatch isCall
  · refine ((keys key).mp (.inl isOutput)).resolve_left fun isCall => ?_
    rw [callKey_of_outputKey isOutput] at isCall
    exact nomatch isCall

end Pairs

theorem withItemAt_perm (item : ResponseItem) (rest : List ResponseItem) (side : HistoryEnd) :
    (withItemAt item rest side).Perm (item :: rest) := by
  cases side with
  | first => exact .refl _
  | last => exact perm_append_singleton _ _

theorem sublist_withItemAt (item : ResponseItem) (rest : List ResponseItem) (side : HistoryEnd) :
    rest.Sublist (withItemAt item rest side) := by
  cases side with
  | first => exact sublist_cons_self _ _
  | last => exact sublist_append_left _ _

theorem removeItem_cases (history : ContextManager) (side : HistoryEnd) :
    history.items = [] ∧ (removeItem history side).items = [] ∨
      ∃ item rest, history.items = withItemAt item rest side ∧
        (removeItem history side).items = removeCorrespondingFor rest item := by
  cases side with
  | first =>
    cases shape : history.items with
    | nil => exact .inl ⟨rfl, by simp [removeItem, shape]⟩
    | cons removed rest => exact .inr ⟨removed, rest, rfl, by simp [removeItem, shape]⟩
  | last =>
    cases shape : history.items.getLast? with
    | none =>
      have empty := getLast?_eq_none_iff.mp shape
      exact .inl ⟨empty, by simp [removeItem, empty]⟩
    | some removed =>
      exact .inr ⟨removed, history.items.dropLast, (dropLast_append_getLast? removed shape).symm, by
        simp [removeItem, shape]⟩

/--
A run of trims: each takes the item at its end, with one counterpart if it is a
call or an output, and leaves every other item where it is.
-/
inductive Trims : List HistoryEnd → List ResponseItem → List ResponseItem → Prop
  | done (items : List ResponseItem) : Trims [] items items
  | empty {side : HistoryEnd} {sides : List HistoryEnd} {result : List ResponseItem} :
    Trims sides [] result → Trims (side :: sides) [] result
  | take {side : HistoryEnd} {sides : List HistoryEnd} {item : ResponseItem}
    {rest left result : List ResponseItem} :
    TakesAlong item rest left → Trims sides left result →
      Trims (side :: sides) (withItemAt item rest side) result

/--
Trims keep the calls of a history paired with their outputs.  What is left is
a sublist, and each trim took one item off its end and nothing else but the
counterpart of that item.
-/
theorem trims_keep_pairs_whole (sides : List HistoryEnd) (history : ContextManager)
    (paired : Paired history.items) :
    Paired (sides.foldl removeItem history).items ∧
      (sides.foldl removeItem history).items.Sublist history.items ∧
      Trims sides history.items (sides.foldl removeItem history).items := by
  induction sides generalizing history with
  | nil => exact ⟨paired, .refl _, .done _⟩
  | cons side sides ih =>
    rw [foldl_cons]
    rcases removeItem_cases history side with ⟨empty, next⟩ | ⟨item, rest, shape, next⟩
    · rw [empty, ← next] at paired
      obtain ⟨lastPaired, lastSublist, trims⟩ := ih (removeItem history side) paired
      rw [next] at lastSublist trims
      rw [empty]
      exact ⟨lastPaired, lastSublist, .empty trims⟩
    · rw [shape] at paired ⊢
      have isRest := withItemAt_perm item rest side
      have taken := takesAlong_of_paired paired isRest
      rw [← next] at taken
      obtain ⟨nextPaired, nextSublist⟩ :=
        paired_of_takesAlong paired isRest (sublist_withItemAt item rest side) taken
      obtain ⟨lastPaired, lastSublist, trims⟩ := ih (removeItem history side) nextPaired
      exact ⟨lastPaired, lastSublist.trans nextSublist, .take taken trims⟩

def answeredCall : ContextManager :=
  ⟨[.functionCall none "shell" none "\x7b\x7d" "a", .functionCallOutput "a" (fromText "done"),
    .message none "user" [.inputText "thanks"] none], 0, none⟩

theorem answeredCall_paired : Paired answeredCall.items where
  unique := by decide
  answered := .refl _
  ordered := by simp [answeredCall, outputKey, callKey]

theorem answeredCall_trimmed : Paired answeredCall.items ∧
    Paired ([.first, .last].foldl removeItem answeredCall).items ∧
      Trims [.first, .last] answeredCall.items [] :=
  have trimmed := trims_keep_pairs_whole [.first, .last] _ answeredCall_paired
  ⟨answeredCall_paired, trimmed.1, trimmed.2.2⟩

/-! ## Rewrites and the version -/

/-- The operations on a history; token counts are not part of the model. -/
inductive HistoryOperation where
  | recordItems (policy : TextTruncation.TruncationPolicy) (items : List ResponseItem)
  | removeItem (side : HistoryEnd)
  | replace (items : List ResponseItem)
  | replaceLastTurnImages (placeholder : String)
  | dropLastNUserTurns (numTurns : UInt32)
  | setReferenceContextItem (item : Option TurnContextItem)
  | setTokenInfo

variable (env : HistoryEnvironment) (history : ContextManager)

def applyOperation : HistoryOperation → ContextManager
  | .recordItems policy items => history.recordItems env policy items
  | .removeItem side => removeItem history side
  | .replace items => history.replace items
  | .replaceLastTurnImages placeholder =>
    (history.replaceLastTurnImages env.decoders placeholder).getD history
  | .dropLastNUserTurns numTurns => history.dropLastNUserTurns env.decoders numTurns
  | .setReferenceContextItem item => { history with referenceContextItem := item }
  | .setTokenInfo => history

def runOperations (operations : List HistoryOperation) : ContextManager :=
  operations.foldl (applyOperation env) history

/-- The version never falls, and where it stays the items are only added to. -/
def GoesOn (earlier later : ContextManager) : Prop :=
  earlier.historyVersion ≤ u64Max → later.historyVersion ≤ u64Max ∧
    earlier.historyVersion ≤ later.historyVersion ∧
    (earlier.historyVersion = later.historyVersion → earlier.historyVersion < u64Max →
      earlier.items <+: later.items)

variable {earlier later : ContextManager}

theorem GoesOn.of_kept (kept : later.historyVersion = earlier.historyVersion)
    (added : earlier.historyVersion < u64Max → earlier.items <+: later.items) :
    GoesOn earlier later := fun bounded =>
  ⟨by omega, by omega, fun _ below => added below⟩

theorem GoesOn.of_version
    (counted : later.historyVersion = min (earlier.historyVersion + 1) u64Max) :
    GoesOn earlier later := fun bounded =>
  ⟨by omega, by omega, fun same below => by omega⟩

theorem GoesOn.trans {first second third : ContextManager} (earlier : GoesOn first second)
    (later : GoesOn second third) : GoesOn first third := by
  intro bounded
  obtain ⟨secondBounded, upToSecond, toSecond⟩ := earlier bounded
  obtain ⟨thirdBounded, upToThird, toThird⟩ := later secondBounded
  refine ⟨thirdBounded, upToSecond.trans upToThird, fun same below => ?_⟩
  exact (toSecond (by omega) below).trans (toThird (by omega) (by omega))

theorem historyVersion_of_replaceLastTurnImages {decoders : ContextualFragments.FragmentDecoders}
    {history next : ContextManager} {placeholder : String}
    (replaced : history.replaceLastTurnImages decoders placeholder = some next) :
    next.historyVersion = min (history.historyVersion + 1) u64Max := by
  simp only [ContextManager.replaceLastTurnImages] at replaced
  split at replaced
  · split at replaced
    · exact Option.some.inj replaced ▸ rfl
    · exact nomatch replaced
  · exact nomatch replaced

variable (history : ContextManager)

/-- Taking the first item off is the one rewrite that is not counted. -/
theorem goesOn_applyOperation (operation : HistoryOperation)
    (counted : operation = .removeItem .first →
      history.items = [] ∨ u64Max ≤ history.historyVersion) :
    GoesOn history (applyOperation env history operation) := by
  have unchanged : GoesOn history history := .of_kept rfl fun _ => prefix_refl _
  cases operation with
  | recordItems policy items => exact .of_kept rfl fun _ => prefix_append _ _
  | replace items => exact .of_version rfl
  | setReferenceContextItem item => exact .of_kept rfl fun _ => prefix_refl _
  | setTokenInfo => exact unchanged
  | replaceLastTurnImages placeholder =>
    rw [applyOperation]
    cases replaced : history.replaceLastTurnImages env.decoders placeholder with
    | none => exact unchanged
    | some next => exact .of_version (historyVersion_of_replaceLastTurnImages replaced)
  | dropLastNUserTurns numTurns =>
    simp only [applyOperation, ContextManager.dropLastNUserTurns]
    split
    · exact unchanged
    · split <;> exact .of_version rfl
  | removeItem side =>
    cases side with
    | first =>
      rw [applyOperation, removeItem]
      rcases counted rfl with empty | full
      · rw [empty]
        exact unchanged
      · split
        · exact unchanged
        · exact .of_kept rfl fun below => absurd below full.not_gt
    | last =>
      rw [applyOperation, removeItem]
      split
      · exact unchanged
      · exact .of_version rfl

/-- Every call of `remove_first_item` in a run finds nothing to take, or no version to count. -/
def RemovesNoFirst (history : ContextManager) (operations : List HistoryOperation) : Prop :=
  ∀ front back, operations = front ++ .removeItem .first :: back →
    (runOperations env history front).items = [] ∨
      u64Max ≤ (runOperations env history front).historyVersion

theorem goesOn_runOperations {operations : List HistoryOperation}
    (counted : RemovesNoFirst env history operations) :
    GoesOn history (runOperations env history operations) := by
  induction operations generalizing history with
  | nil => exact .of_kept rfl fun _ => prefix_refl _
  | cons operation rest ih =>
    have step := goesOn_applyOperation env history operation fun isFirst =>
      counted [] rest (by rw [isFirst]; rfl)
    refine step.trans (ih _ fun front back split => ?_)
    exact counted (operation :: front) back (by rw [split]; rfl)

theorem removeCorrespondingFor_sublist (item : ResponseItem) :
    (removeCorrespondingFor items item).Sublist items := by
  unfold removeCorrespondingFor removeFirstMatching
  split
  case h_2 => split <;> exact eraseP_sublist
  all_goals first | exact eraseP_sublist | exact .refl _

theorem not_prefix_removeItem_first {history : ContextManager} (nonempty : history.items ≠ []) :
    ¬ history.items <+: (removeItem history .first).items := by
  intro isPrefix
  cases shape : history.items with
  | nil => exact nonempty shape
  | cons removed rest =>
    simp only [removeItem, shape] at isPrefix
    have shorter := isPrefix.length_le.trans (removeCorrespondingFor_sublist rest removed).length_le
    simp at shorter

theorem runOperations_append (front back : List HistoryOperation) :
    runOperations env history (front ++ back) =
      runOperations env (runOperations env history front) back :=
  foldl_append

/--
In a run of operations the histories at two points with one version go on from
each other exactly if no item is ever taken off the front: that rewrite alone
leaves the version as it is.
-/
theorem version_detects_rewrites_iff (operations : List HistoryOperation) :
    (∀ front middle back, operations = front ++ middle ++ back →
      (runOperations env .new front).historyVersion =
        (runOperations env .new (front ++ middle)).historyVersion →
      (runOperations env .new front).historyVersion < u64Max →
      (runOperations env .new front).items <+:
        (runOperations env .new (front ++ middle)).items) ↔
    RemovesNoFirst env .new operations := by
  constructor
  · intro detects front back split
    by_contra removes
    obtain ⟨nonempty, notFull⟩ := not_or.mp removes
    have after : runOperations env .new (front ++ [.removeItem .first]) =
        removeItem (runOperations env .new front) .first := runOperations_append _ _ _ _
    have isPrefix := detects front [.removeItem .first] back (by simp [split])
    rw [after] at isPrefix
    refine not_prefix_removeItem_first nonempty (isPrefix ?_ (not_le.mp notFull))
    rw [removeItem]
    split <;> rfl
  · rintro counted front middle back rfl same below
    rw [runOperations_append] at same ⊢
    have middleCounted : RemovesNoFirst env (runOperations env .new front) middle :=
      fun before after split => by
        rw [← runOperations_append]
        exact counted (front ++ before) (after ++ back) (by simp [split])
    exact (goesOn_runOperations env _ middleCounted below.le).2.2 same below

def uncountedRemoval : List HistoryOperation :=
  [.recordItems (.bytes 100) threeTurns.items, .removeItem .first]

theorem uncounted_removal_keeps_version :
    (runOperations plainEnvironment .new (uncountedRemoval.take 1)).historyVersion =
      (runOperations plainEnvironment .new uncountedRemoval).historyVersion ∧
    (runOperations plainEnvironment .new uncountedRemoval).historyVersion < u64Max ∧
    ¬ (runOperations plainEnvironment .new (uncountedRemoval.take 1)).items <+:
      (runOperations plainEnvironment .new uncountedRemoval).items := by
  decide

end Codex.Context.HistoryRewrites
